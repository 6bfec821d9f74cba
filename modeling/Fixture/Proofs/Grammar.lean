import Mathlib
import Fixture.Parse
/-!
# The grammar, as derivation trees

`Fixture.Parse` is a reader; this module says what it is meant to read. Each
nonterminal of the grammar is a type whose values are its derivations, each
right-hand side is a constructor, and a terminal is a token bundled with the
proof that it is of the wanted kind, so a tree with a wrong token in it cannot
be built:

    program   : PROGRAM ID SEMI block DOT
    block     : [VAR vars*] [IO pins*] [WAYPOINT waypoints*] compound
    vars      : ID (COMMA ID)* COLON (INTEGER | REAL | BOOL) SEMI
    pins      : ID COLON (PININ | PINOUT) INTEGER_CONST SEMI
    waypoints : ID ASSIGN factor COMMA factor SEMI
    compound  : BEGIN list END
    list      : statement (SEMI statement)*
    statement : compound | ID ASSIGN expr | if | loop | WAIT expr | move
              | HOME | STOP | empty
    if        : IF expr COLON list [ELSE COLON list] ENDIF
    loop      : LOOP COLON list UNTIL expr
    move      : (MOVETO | ROTATE) factor [COMMA factor]
    expr      : sum [(EQUAL | NEQUAL | LT | LTE | GT | GTE) sum]
    sum       : term ((PLUS | MINUS) term)*
    term      : factor ((MUL | INTEGER_DIV | FLOAT_DIV) factor)*
    factor    : (PLUS | MINUS) factor | INTEGER_CONST | REAL_CONST
              | BOOL_CONST | LPAREN expr RPAREN | ID

A derivation has two readings. `tokens` is its frontier, the word that it
derives. `tree` is the program tree that it stands for: repetitions hang to the
left, parentheses leave nothing behind, a group of names becomes one declaration
for each name.

Derivations say nothing about the size of numerals. That is a condition on
single tokens, `Token.Fits`.
-/

namespace Fixture

/-- A token of one kind. -/
abbrev TokenOf (k : Kind) := { t : Token // t.kind = k }

/-- A token of a class of kinds. -/
abbrev TokenIn (p : Kind → Bool) := { t : Token // p t.kind = true }

/-- A numeral fits if it has a value: an integer below `2 ^ 63`, a real that
does not round beyond the largest double. Tokens that are no numerals fit. -/
structure Token.Fits (t : Token) : Prop where
  integer : t.kind = .integerConst → Numeral.digits 0 t.literal.toList < 2 ^ 63
  real : t.kind = .realConst → (Numeral.real? t.literal).isSome = true

/-- The kind of the keyword that moves an axis. -/
def Axis.kind : Axis → Kind
  | .linear => .kwMoveto
  | .rotary => .kwRotate

namespace Grammar

/-! ## Expressions -/

mutual

/-- Derivations of a factor. -/
inductive Factor where
  | signed (op : TokenIn Kind.isAdditive) (operand : Factor)
  | integer (tok : TokenOf .integerConst)
  | real (tok : TokenOf .realConst)
  | boolean (tok : TokenOf .boolConst)
  | paren (opening : TokenOf .lparen) (inner : Expression)
      (closing : TokenOf .rparen)
  | name (tok : TokenOf .ident)

/-- Derivations of what may follow the first factor of a term. -/
inductive Factors where
  | nil
  | cons (op : TokenIn Kind.isMultiplicative) (factor : Factor) (rest : Factors)

/-- Derivations of a term. -/
inductive Term where
  | mk (first : Factor) (rest : Factors)

/-- Derivations of what may follow the first term of a sum. -/
inductive Terms where
  | nil
  | cons (op : TokenIn Kind.isAdditive) (term : Term) (rest : Terms)

/-- Derivations of a sum. -/
inductive Sum where
  | mk (first : Term) (rest : Terms)

/-- Derivations of an expression. -/
inductive Expression where
  | sum (s : Sum)
  | comparison (left : Sum) (op : TokenIn Kind.isRelational) (right : Sum)

end

mutual

/-- The tokens of a factor. -/
@[simp] def Factor.tokens : Factor → List Token
  | .signed op f => op.val :: f.tokens
  | .integer t => [t.val]
  | .real t => [t.val]
  | .boolean t => [t.val]
  | .paren l e r => l.val :: (e.tokens ++ [r.val])
  | .name t => [t.val]

/-- The tokens behind the first factor of a term. -/
@[simp] def Factors.tokens : Factors → List Token
  | .nil => []
  | .cons op f fs => op.val :: (f.tokens ++ fs.tokens)

/-- The tokens of a term. -/
@[simp] def Term.tokens : Term → List Token
  | .mk f fs => f.tokens ++ fs.tokens

/-- The tokens behind the first term of a sum. -/
@[simp] def Terms.tokens : Terms → List Token
  | .nil => []
  | .cons op t ts => op.val :: (t.tokens ++ ts.tokens)

/-- The tokens of a sum. -/
@[simp] def Sum.tokens : Sum → List Token
  | .mk t ts => t.tokens ++ ts.tokens

/-- The tokens of an expression. -/
@[simp] def Expression.tokens : Expression → List Token
  | .sum s => s.tokens
  | .comparison l op r => l.tokens ++ op.val :: r.tokens

end

mutual

/-- The tree of a factor. Parentheses leave no node. -/
@[simp] def Factor.tree : Factor → Expr
  | .signed op f => .signed op.val f.tree
  | .integer t =>
    .integer t.val (Int64.ofNat (Numeral.digits 0 t.val.literal.toList))
  | .real t => .real t.val ((Numeral.real? t.val.literal).getD 0)
  | .boolean t => .boolean t.val (t.val.literal == "TRUE")
  | .paren _ e _ => e.tree
  | .name t => .name t.val

/-- The tree of the factors behind `left`, hung to the left. -/
@[simp] def Factors.tree (left : Expr) : Factors → Expr
  | .nil => left
  | .cons op f fs => fs.tree (.binary op.val left f.tree)

/-- The tree of a term. -/
@[simp] def Term.tree : Term → Expr
  | .mk f fs => fs.tree f.tree

/-- The tree of the terms behind `left`, hung to the left. -/
@[simp] def Terms.tree (left : Expr) : Terms → Expr
  | .nil => left
  | .cons op t ts => ts.tree (.binary op.val left t.tree)

/-- The tree of a sum. -/
@[simp] def Sum.tree : Sum → Expr
  | .mk t ts => ts.tree t.tree

/-- The tree of an expression. -/
@[simp] def Expression.tree : Expression → Expr
  | .sum s => s.tree
  | .comparison l op r => .binary op.val l.tree r.tree

end

/-! ## Statements -/

/-- Derivations of the operands of a move. -/
inductive Operands where
  | distance (d : Factor)
  | both (d : Factor) (comma : TokenOf .comma) (s : Factor)

mutual

/-- Derivations of a statement. -/
inductive Statement where
  | empty
  | compound (opening : TokenOf .kwBegin) (body : Statements)
      (closing : TokenOf .kwEnd)
  | assign (target : TokenOf .ident) (op : TokenOf .assign) (value : Expression)
  | ifThen (tok : TokenOf .kwIf) (condition : Expression)
      (colon : TokenOf .colon) (body : Statements) (closing : TokenOf .kwEndif)
  | ifElse (tok : TokenOf .kwIf) (condition : Expression)
      (colon : TokenOf .colon) (body : Statements) (otherwise : TokenOf .kwElse)
      (colon' : TokenOf .colon) (alt : Statements) (closing : TokenOf .kwEndif)
  | loop (tok : TokenOf .kwLoop) (colon : TokenOf .colon) (body : Statements)
      (until' : TokenOf .kwUntil) (condition : Expression)
  | wait (tok : TokenOf .kwWait) (duration : Expression)
  | move (axis : Axis) (tok : TokenOf axis.kind) (operands : Operands)
  | home (tok : TokenOf .kwHome)
  | stop (tok : TokenOf .kwStop)

/-- Derivations of a statement list. -/
inductive Statements where
  | one (s : Statement)
  | more (s : Statement) (semi : TokenOf .semi) (rest : Statements)

end

/-- The tokens of the operands of a move. -/
@[simp] def Operands.tokens : Operands → List Token
  | .distance d => d.tokens
  | .both d c s => d.tokens ++ c.val :: s.tokens

/-- The operands of a move. -/
@[simp] def Operands.tree : Operands → Expr × Option Expr
  | .distance d => (d.tree, none)
  | .both d _ s => (d.tree, some s.tree)

mutual

/-- The tokens of a statement. -/
@[simp] def Statement.tokens : Statement → List Token
  | .empty => []
  | .compound b ss e => b.val :: (ss.tokens ++ [e.val])
  | .assign t op e => t.val :: op.val :: e.tokens
  | .ifThen i c col ss e =>
    i.val :: (c.tokens ++ col.val :: (ss.tokens ++ [e.val]))
  | .ifElse i c col ss el col' alt e =>
    i.val ::
      (c.tokens ++ col.val ::
        (ss.tokens ++ el.val :: col'.val :: (alt.tokens ++ [e.val])))
  | .loop l col ss u c => l.val :: col.val :: (ss.tokens ++ u.val :: c.tokens)
  | .wait w e => w.val :: e.tokens
  | .move _ m o => m.val :: o.tokens
  | .home h => [h.val]
  | .stop s => [s.val]

/-- The tokens of a statement list. -/
@[simp] def Statements.tokens : Statements → List Token
  | .one s => s.tokens
  | .more s semi ss => s.tokens ++ semi.val :: ss.tokens

end

mutual

/-- The tree of a statement. The list of a branch or a loop begins on its first
token, or on the one that ends it if the list has none. -/
@[simp] def Statement.tree : Statement → Stmt
  | .empty => .skip
  | .compound b ss _ => .compound b.val ss.tree
  | .assign t op e => .assign op.val t.val e.tree
  | .ifThen i c _ ss e => .ifThen i.val c.tree (ss.tokens.headD e.val) ss.tree
  | .ifElse i c _ ss el _ alt e =>
    .ifElse i.val c.tree (ss.tokens.headD el.val) ss.tree
      (alt.tokens.headD e.val) alt.tree
  | .loop l _ ss u c => .loop l.val (ss.tokens.headD u.val) ss.tree c.tree
  | .wait w e => .wait w.val e.tree
  | .move axis m o => .move m.val axis o.tree.1 o.tree.2
  | .home h => .home h.val
  | .stop s => .stop s.val

/-- The trees of a statement list. -/
@[simp] def Statements.tree : Statements → List Stmt
  | .one s => [s.tree]
  | .more s _ ss => s.tree :: ss.tree

end

/-! ## Declarations -/

/-- Derivations of the names that share a type. -/
inductive Names where
  | one (id : TokenOf .ident)
  | more (id : TokenOf .ident) (comma : TokenOf .comma) (rest : Names)

/-- The tokens of names. -/
@[simp] def Names.tokens : Names → List Token
  | .one id => [id.val]
  | .more id c ids => id.val :: c.val :: ids.tokens

/-- The names themselves. -/
@[simp] def Names.ids : Names → List Token
  | .one id => [id.val]
  | .more id _ ids => id.val :: ids.ids

/-- Derivations of a group of variables. -/
structure VarGroup where
  names : Names
  colon : TokenOf .colon
  type : TokenIn Kind.isVariableType
  semi : TokenOf .semi

/-- The tokens of a group of variables. -/
@[simp] def VarGroup.tokens (g : VarGroup) : List Token :=
  g.names.tokens ++ [g.colon.val, g.type.val, g.semi.val]

/-- The declarations of a group, one for each name. -/
@[simp] def VarGroup.tree (g : VarGroup) : List VarDecl :=
  g.names.ids.map fun id => ⟨id, g.type.val.kind⟩

/-- Derivations of the declaration of a pin. -/
structure Pin where
  id : TokenOf .ident
  colon : TokenOf .colon
  direction : TokenIn Kind.isDirection
  number : TokenOf .integerConst
  semi : TokenOf .semi

/-- The tokens of the declaration of a pin. -/
@[simp] def Pin.tokens (d : Pin) : List Token :=
  [d.id.val, d.colon.val, d.direction.val, d.number.val, d.semi.val]

/-- The declaration of a pin. -/
@[simp] def Pin.tree (d : Pin) : PinDecl :=
  ⟨d.id.val, d.direction.val.kind,
    Int64.ofNat (Numeral.digits 0 d.number.val.literal.toList)⟩

/-- Derivations of the declaration of a waypoint. -/
structure Waypoint where
  id : TokenOf .ident
  op : TokenOf .assign
  distance : Factor
  comma : TokenOf .comma
  speed : Factor
  semi : TokenOf .semi

/-- The tokens of the declaration of a waypoint. -/
@[simp] def Waypoint.tokens (d : Waypoint) : List Token :=
  d.id.val :: d.op.val ::
    (d.distance.tokens ++ d.comma.val :: (d.speed.tokens ++ [d.semi.val]))

/-- The declaration of a waypoint. -/
@[simp] def Waypoint.tree (d : Waypoint) : WaypointDecl :=
  ⟨d.id.val, d.distance.tree, d.speed.tree⟩

/-- Derivations of a section that may be missing: a keyword with any number of
declarations behind it. -/
inductive Section (keyword : Kind) (δ : Type) where
  | absent
  | present (tok : TokenOf keyword) (decls : List δ)

namespace Section

variable {keyword : Kind} {δ α : Type}

/-- The declarations of a section. -/
@[simp] def decls : Section keyword δ → List δ
  | absent => []
  | present _ ds => ds

/-- The tokens of a section, given those of a declaration. -/
@[simp] def tokens (f : δ → List Token) : Section keyword δ → List Token
  | absent => []
  | present t ds => t.val :: ds.flatMap f

end Section

/-! ## Programs -/

/-- Derivations of a block. -/
structure Block where
  vars : Section .kwVar VarGroup
  pins : Section .kwPins Pin
  waypoints : Section .kwWaypoint Waypoint
  opening : TokenOf .kwBegin
  body : Statements
  closing : TokenOf .kwEnd

/-- The tokens of a block. -/
@[simp] def Block.tokens (b : Block) : List Token :=
  b.vars.tokens VarGroup.tokens ++
    (b.pins.tokens Pin.tokens ++
      (b.waypoints.tokens Waypoint.tokens ++ b.opening.val ::
        (b.body.tokens ++ [b.closing.val])))

/-- The tree of a block. -/
@[simp] def Block.tree (b : Block) : Fixture.Block :=
  ⟨b.vars.decls.flatMap VarGroup.tree, b.pins.decls.map Pin.tree,
    b.waypoints.decls.map Waypoint.tree, b.opening.val, b.body.tree⟩

/-- Derivations of a program. -/
structure Program where
  tok : TokenOf .kwProgram
  name : TokenOf .ident
  semi : TokenOf .semi
  block : Block
  dot : TokenOf .dot

/-- The tokens of a program. -/
@[simp] def Program.tokens (p : Program) : List Token :=
  p.tok.val :: p.name.val :: p.semi.val :: (p.block.tokens ++ [p.dot.val])

/-- The tree of a program. -/
@[simp] def Program.tree (p : Program) : Fixture.Program :=
  ⟨p.tok.val, p.name.val.literal, p.block.tree⟩

/-- Derivations of a whole source: a program and the end. -/
structure Source where
  program : Program
  eof : TokenOf .eof

/-- The tokens of a whole source. -/
@[simp] def Source.tokens (s : Source) : List Token :=
  s.program.tokens ++ [s.eof.val]

/-- The program of a whole source. -/
@[simp] def Source.tree (s : Source) : Fixture.Program := s.program.tree

end Grammar

end Fixture
