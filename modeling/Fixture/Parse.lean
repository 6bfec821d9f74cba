import Fixture.Scan
import Fixture.Numeral
import Fixture.Tree
/-!
# Reading programs

A program is read from the tokens of its source by recursive descent, with the
first token of the list as the only lookahead:

    program   : PROGRAM ID SEMI block DOT
    block     : [VAR vars*] [IO pins*] [WAYPOINT waypoints*] compound
    vars      : ID (COMMA ID)* COLON (INTEGER | REAL | BOOL) SEMI
    pins      : ID COLON (PININ | PINOUT) INTEGER_CONST SEMI
    waypoints : ID ASSIGN factor COMMA factor SEMI
    compound  : BEGIN list END
    list      : statement (SEMI statement)*
    statement : compound | ID ASSIGN expr | if | loop | WAIT expr | move
              | HOME | STOP | empty
    if        : IF expr COLON list [ELSE COLON list] ENDIF
    loop      : LOOP COLON list UNTIL expr
    move      : (MOVETO | ROTATE) factor [COMMA factor]
    expr      : sum [(EQUAL | NEQUAL | LT | LTE | GT | GTE) sum]
    sum       : term ((PLUS | MINUS) term)*
    term      : factor ((MUL | INTEGER_DIV | FLOAT_DIV) factor)*
    factor    : (PLUS | MINUS) factor | INTEGER_CONST | REAL_CONST
              | BOOL_CONST | LPAREN expr RPAREN | ID

The token list may end in front of an error of the scanner. That error is
reported as soon as the token before it is consumed, so the reader never looks
behind it.

All functions take a budget, which each call lowers by one. Every cycle among
them consumes a token, so a budget linear in the number of tokens is never used
up.
-/

namespace Fixture

/-! ## Errors -/

/-- A token that the grammar does not allow where it stands. -/
structure SyntaxError where
  expected : String
  found : Token
deriving DecidableEq

/-- The wording of a syntax error. The literal is shown only where it says more
than the kind does. -/
def SyntaxError.describe (expected : String) (found : Kind) (literal : String)
    (line column : Int) : String :=
  let shown := if literal = "" || literal = found.name then found.name
    else found.name ++ " " ++ Text.quoted literal
  "syntax error at line " ++ toString line ++ " column " ++ toString column ++
    ": expected " ++ expected ++ ", found " ++ shown

/-- The text of a syntax error. -/
def SyntaxError.message (e : SyntaxError) : String :=
  describe e.expected e.found.kind e.found.literal e.found.pos.line
    e.found.pos.column

/-- What a numeral is used for. -/
inductive NumberUse where
  | integer
  | real
  | pin
deriving DecidableEq

/-- Why a source is no program. -/
inductive ParseError where
  | lexical (e : LexError)
  | unexpected (e : SyntaxError)
  /-- A numeral whose value does not fit. -/
  | outOfRange (use : NumberUse) (tok : Token)
  /-- The budget or the tokens ran out. No source leads here. -/
  | exhausted
deriving DecidableEq

/-- The wording for a numeral out of range. -/
def NumberUse.describe (use : NumberUse) (tok : Token) : String :=
  let numeral := Text.quoted tok.literal
  let place :=
    " at line " ++ toString tok.pos.line ++ " column " ++
      toString tok.pos.column
  let reason (reader : String) : String :=
    ": " ++ reader ++ ": parsing " ++ numeral ++ ": value out of range"
  "could not parse " ++ numeral ++ match use with
    | integer => " as integer" ++ place ++ reason "strconv.ParseInt"
    | real => " as real" ++ place ++ reason "strconv.ParseFloat"
    | pin => " as pin number" ++ reason "strconv.ParseInt"

/-- The text of an error. -/
def ParseError.message : ParseError → String
  | lexical e => e.message
  | unexpected e => e.message
  | outOfRange use tok => use.describe tok
  | exhausted => "budget exhausted"

namespace Parse

/-! ## Single tokens

Reading gives a part of the tree and the tokens behind it, or the first error.
`behind` is the error that stands behind the last token of the list. -/

/-- The kind of the next token. -/
def peek : List Token → Kind
  | [] => .eof
  | t :: _ => t.kind

/-- Consumes the next token. -/
def advance (behind : ParseError) : List Token → Except ParseError (List Token)
  | _ :: t :: ts => .ok (t :: ts)
  | _ => .error behind

/-- The error of a next token that is not the expected one. -/
def refuse (behind : ParseError) (expected : String) : List Token → ParseError
  | [] => behind
  | t :: _ => .unexpected ⟨expected, t⟩

/-- Consumes the next token, which has to be of the given kind, and gives it
back. -/
def expect (behind : ParseError) (k : Kind) :
    List Token → Except ParseError (Token × List Token)
  | [] => .error behind
  | t :: ts =>
    if t.kind = k then do return (t, ← advance behind (t :: ts))
    else .error (refuse behind k.name (t :: ts))

/-! ## Expressions -/

/-- A reader of expressions. -/
abbrev ExprReader := List Token → Except ParseError (Expr × List Token)

/--
Reads what may follow an expression: an operator of a class and its other
operand, which are hung to the expression, and then whatever more there is.
-/
def operatorTail (behind : ParseError) (isOperator : Kind → Bool)
    (operand : ExprReader) (more : Expr → ExprReader) (left : Expr) :
    ExprReader
  | [] => .error behind
  | op :: ts =>
    if isOperator op.kind then do
      let ts ← advance behind (op :: ts)
      let (right, ts) ← operand ts
      more (.binary op left right) ts
    else .ok (left, op :: ts)

mutual

/-- Reads a factor: a sign before a factor, a literal, a parenthesised
expression or a name. -/
def factor (behind : ParseError) : Nat → ExprReader
  | 0, _ => .error .exhausted
  | _ + 1, [] => .error behind
  | n + 1, t :: ts =>
    match t.kind with
    | .plus | .minus => do
      let ts ← advance behind (t :: ts)
      let (e, ts) ← factor behind n ts
      return (.signed t e, ts)
    | .integerConst =>
      match Numeral.integer? t.literal with
      | none => .error (.outOfRange .integer t)
      | some v => do return (.integer t v, ← advance behind (t :: ts))
    | .realConst =>
      match Numeral.real? t.literal with
      | none => .error (.outOfRange .real t)
      | some v => do return (.real t v, ← advance behind (t :: ts))
    | .boolConst =>
      do return (.boolean t (t.literal == "TRUE"), ← advance behind (t :: ts))
    | .lparen => do
      let ts ← advance behind (t :: ts)
      let (e, ts) ← expression behind n ts
      let (_, ts) ← expect behind .rparen ts
      return (e, ts)
    | _ => do
      let (id, ts) ← expect behind .ident (t :: ts)
      return (.name id, ts)

/-- Reads the operators and factors that follow a factor. -/
def termTail (behind : ParseError) : Nat → Expr → ExprReader
  | 0, _, _ => .error .exhausted
  | n + 1, left, ts =>
    operatorTail behind Kind.isMultiplicative (factor behind n)
      (termTail behind n) left ts

/-- Reads a product. -/
def term (behind : ParseError) : Nat → ExprReader
  | 0, _ => .error .exhausted
  | n + 1, ts => do
    let (left, ts) ← factor behind n ts
    termTail behind n left ts

/-- Reads the signs and terms that follow a term. -/
def sumTail (behind : ParseError) : Nat → Expr → ExprReader
  | 0, _, _ => .error .exhausted
  | n + 1, left, ts =>
    operatorTail behind Kind.isAdditive (term behind n) (sumTail behind n)
      left ts

/-- Reads a sum. -/
def sum (behind : ParseError) : Nat → ExprReader
  | 0, _ => .error .exhausted
  | n + 1, ts => do
    let (left, ts) ← term behind n ts
    sumTail behind n left ts

/-- Reads the comparison that may follow a sum, one at most. -/
def comparison (behind : ParseError) : Nat → Expr → ExprReader
  | 0, _, _ => .error .exhausted
  | n + 1, left, ts =>
    operatorTail behind Kind.isRelational (sum behind n)
      (fun e ts => .ok (e, ts)) left ts

/-- Reads an expression. -/
def expression (behind : ParseError) : Nat → ExprReader
  | 0, _ => .error .exhausted
  | n + 1, ts => do
    let (left, ts) ← sum behind n ts
    comparison behind n left ts

end

/-! ## Statements -/

/-- Reads the operands of a move: a distance, and a speed behind a comma. -/
def operands (behind : ParseError) (n : Nat) (ts : List Token) :
    Except ParseError ((Expr × Option Expr) × List Token) := do
  let (distance, ts) ← factor behind n ts
  if peek ts = .comma then
    let ts ← advance behind ts
    let (speed, ts) ← factor behind n ts
    return ((distance, some speed), ts)
  else return ((distance, none), ts)

mutual

/-- Reads a statement. Where none begins, that is the empty statement. -/
def statement (behind : ParseError) :
    Nat → List Token → Except ParseError (Stmt × List Token)
  | 0, _ => .error .exhausted
  | _ + 1, [] => .error behind
  | n + 1, t :: ts =>
    match t.kind with
    | .kwBegin => do
      let ts ← advance behind (t :: ts)
      let (body, ts) ← statements behind n ts
      let (_, ts) ← expect behind .kwEnd ts
      return (.compound t body, ts)
    | .ident => do
      let ts ← advance behind (t :: ts)
      let (op, ts) ← expect behind .assign ts
      let (value, ts) ← expression behind n ts
      return (.assign op t value, ts)
    | .kwIf => do
      let ts ← advance behind (t :: ts)
      let (condition, ts) ← expression behind n ts
      let (_, ts) ← expect behind .colon ts
      let bodyTok := ts.headD t
      let (body, ts) ← statements behind n ts
      if peek ts = .kwElse then
        let ts ← advance behind ts
        let (_, ts) ← expect behind .colon ts
        let altTok := ts.headD t
        let (alt, ts) ← statements behind n ts
        let (_, ts) ← expect behind .kwEndif ts
        return (.ifElse t condition bodyTok body altTok alt, ts)
      else
        let (_, ts) ← expect behind .kwEndif ts
        return (.ifThen t condition bodyTok body, ts)
    | .kwLoop => do
      let ts ← advance behind (t :: ts)
      let (_, ts) ← expect behind .colon ts
      let bodyTok := ts.headD t
      let (body, ts) ← statements behind n ts
      let (_, ts) ← expect behind .kwUntil ts
      let (condition, ts) ← expression behind n ts
      return (.loop t bodyTok body condition, ts)
    | .kwWait => do
      let ts ← advance behind (t :: ts)
      let (duration, ts) ← expression behind n ts
      return (.wait t duration, ts)
    | .kwMoveto => do
      let ts ← advance behind (t :: ts)
      let ((distance, speed), ts) ← operands behind n ts
      return (.move t .linear distance speed, ts)
    | .kwRotate => do
      let ts ← advance behind (t :: ts)
      let ((distance, speed), ts) ← operands behind n ts
      return (.move t .rotary distance speed, ts)
    | .kwHome => do return (.home t, ← advance behind (t :: ts))
    | .kwStop => do return (.stop t, ← advance behind (t :: ts))
    | _ => .ok (.skip, t :: ts)

/-- Reads a statement list. -/
def statements (behind : ParseError) :
    Nat → List Token → Except ParseError (List Stmt × List Token)
  | 0, _ => .error .exhausted
  | n + 1, ts => do
    let (s, ts) ← statement behind n ts
    if peek ts = .semi then
      let ts ← advance behind ts
      let (ss, ts) ← statements behind n ts
      return (s :: ss, ts)
    else return ([s], ts)

end

/-! ## Declarations -/

/-- Reads the names that share a type, the first one included. -/
def names (behind : ParseError) :
    Nat → List Token → Except ParseError (List Token × List Token)
  | 0, _ => .error .exhausted
  | n + 1, ts => do
    let (id, ts) ← expect behind .ident ts
    if peek ts = .comma then
      let ts ← advance behind ts
      let (ids, ts) ← names behind n ts
      return (id :: ids, ts)
    else return ([id], ts)

/-- Reads the declarations of a variable section. A group of names becomes one
declaration for each name. -/
def varDecls (behind : ParseError) :
    Nat → List Token → Except ParseError (List VarDecl × List Token)
  | 0, _ => .error .exhausted
  | n + 1, ts =>
    if peek ts = .ident then do
      let (ids, ts) ← names behind n ts
      let (_, ts) ← expect behind .colon ts
      let type := peek ts
      if type.isVariableType then
        let ts ← advance behind ts
        let (_, ts) ← expect behind .semi ts
        let (ds, ts) ← varDecls behind n ts
        return (ids.map (fun id => ⟨id, type⟩) ++ ds, ts)
      else .error (refuse behind "INTEGER, REAL or BOOL" ts)
    else .ok ([], ts)

/-- Reads a pin number. -/
def pinNumber (behind : ParseError) :
    List Token → Except ParseError (Int64 × List Token)
  | [] => .error behind
  | t :: ts =>
    if t.kind = .integerConst then
      match Numeral.integer? t.literal with
      | none => .error (.outOfRange .pin t)
      | some v => do return (v, ← advance behind (t :: ts))
    else .error (refuse behind (Kind.name .integerConst) (t :: ts))

/-- Reads the declarations of a pin section. -/
def pinDecls (behind : ParseError) :
    Nat → List Token → Except ParseError (List PinDecl × List Token)
  | 0, _ => .error .exhausted
  | n + 1, ts =>
    if peek ts = .ident then do
      let (id, ts) ← expect behind .ident ts
      let (_, ts) ← expect behind .colon ts
      let direction := peek ts
      if direction.isDirection then
        let ts ← advance behind ts
        let (pin, ts) ← pinNumber behind ts
        let (_, ts) ← expect behind .semi ts
        let (ds, ts) ← pinDecls behind n ts
        return (⟨id, direction, pin⟩ :: ds, ts)
      else .error (refuse behind "PININ or PINOUT" ts)
    else .ok ([], ts)

/-- Reads the declarations of a waypoint section. -/
def waypointDecls (behind : ParseError) :
    Nat → List Token → Except ParseError (List WaypointDecl × List Token)
  | 0, _ => .error .exhausted
  | n + 1, ts =>
    if peek ts = .ident then do
      let (id, ts) ← expect behind .ident ts
      let (_, ts) ← expect behind .assign ts
      let (distance, ts) ← factor behind n ts
      let (_, ts) ← expect behind .comma ts
      let (speed, ts) ← factor behind n ts
      let (_, ts) ← expect behind .semi ts
      let (ds, ts) ← waypointDecls behind n ts
      return (⟨id, distance, speed⟩ :: ds, ts)
    else .ok ([], ts)

/-- Reads a section that a keyword opens; without the keyword it is empty. -/
def optionalSection {α : Type} (behind : ParseError) (keyword : Kind)
    (decls : List Token → Except ParseError (List α × List Token))
    (ts : List Token) : Except ParseError (List α × List Token) := do
  if peek ts = keyword then
    let ts ← advance behind ts
    decls ts
  else .ok ([], ts)

/-! ## Programs -/

/-- Reads the sections and the body. -/
def block (behind : ParseError) (n : Nat) (ts : List Token) :
    Except ParseError (Block × List Token) := do
  let (vars, ts) ← optionalSection behind .kwVar (varDecls behind n) ts
  let (pins, ts) ← optionalSection behind .kwPins (pinDecls behind n) ts
  let (waypoints, ts) ← optionalSection behind .kwWaypoint
    (waypointDecls behind n) ts
  let (bodyTok, ts) ← expect behind .kwBegin ts
  let (body, ts) ← statements behind n ts
  let (_, ts) ← expect behind .kwEnd ts
  return (⟨vars, pins, waypoints, bodyTok, body⟩, ts)

/-- Reads a program and requires the source to end behind it. -/
def program (behind : ParseError) (n : Nat) (ts : List Token) :
    Except ParseError Program := do
  let (tok, ts) ← expect behind .kwProgram ts
  let (name, ts) ← expect behind .ident ts
  let (_, ts) ← expect behind .semi ts
  let (b, ts) ← block behind n ts
  let (_, ts) ← expect behind .dot ts
  if peek ts = .eof then return ⟨tok, name.literal, b⟩
  else .error (refuse behind (Kind.name .eof) ts)

/-- A budget that no list of that many tokens uses up. -/
def budget (tokens : Nat) : Nat := 8 * tokens + 8

end Parse

/-- Reads what the scanner found as a program. -/
def Scan.parse (s : Scan) : Except ParseError Program :=
  let behind := match s.failure with
    | some e => .lexical e
    | none => .exhausted
  Parse.program behind (Parse.budget s.tokens.length) s.tokens

/-- Reads a source as a program. -/
def parse (src : List UInt8) : Except ParseError Program := (scan src).parse

end Fixture
