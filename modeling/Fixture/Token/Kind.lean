/-!
# Token kinds

The vocabulary of the motion language: its kinds of token, the name each kind
has in diagnostics, the reserved words, and the spellings of operators and
delimiters. Three tables fix all of it: `Kind.name`, `reservedWords` and
`spellings`. A word that no table lists is an identifier.

`Kind.other` stands for a name outside the vocabulary. No source text yields it,
but a syntax tree built by hand may carry it, and the interpreter says what
happens then.
-/

namespace Fixture

/-- The kind of a token. -/
inductive Kind where
  /-- The end of the source. -/
  | eof
  | ident
  | integerConst
  | realConst
  | boolConst
  | assign
  | plus
  | minus
  | mul
  | integerDiv
  | floatDiv
  | equal
  | notEqual
  | less
  | lessEq
  | greater
  | greaterEq
  | lparen
  | rparen
  | semi
  | colon
  | comma
  | dot
  | kwProgram
  | kwBegin
  | kwEnd
  | kwVar
  /-- The keyword that opens the pin section. -/
  | kwPins
  | kwWaypoint
  | kwIf
  | kwElse
  | kwEndif
  | kwLoop
  | kwUntil
  | kwWait
  | kwMoveto
  | kwRotate
  | kwHome
  | kwStop
  | tyInteger
  | tyReal
  | tyBool
  | pinIn
  | pinOut
  /-- A name that is no kind of the language. -/
  | other (name : String)
deriving DecidableEq, Inhabited

namespace Kind

/-- The name of a kind in diagnostics and listings. -/
def name : Kind → String
  | eof => "EOF"
  | ident => "ID"
  | integerConst => "INTEGER_CONST"
  | realConst => "REAL_CONST"
  | boolConst => "BOOL_CONST"
  | assign => "ASSIGN"
  | plus => "PLUS"
  | minus => "MINUS"
  | mul => "MUL"
  | integerDiv => "INTEGER_DIV"
  | floatDiv => "FLOAT_DIV"
  | equal => "EQUAL"
  | notEqual => "NEQUAL"
  | less => "LT"
  | lessEq => "LTE"
  | greater => "GT"
  | greaterEq => "GTE"
  | lparen => "LPAREN"
  | rparen => "RPAREN"
  | semi => "SEMI"
  | colon => "COLON"
  | comma => "COMMA"
  | dot => "DOT"
  | kwProgram => "PROGRAM"
  | kwBegin => "BEGIN"
  | kwEnd => "END"
  | kwVar => "VAR"
  | kwPins => "IO"
  | kwWaypoint => "WAYPOINT"
  | kwIf => "IF"
  | kwElse => "ELSE"
  | kwEndif => "ENDIF"
  | kwLoop => "LOOP"
  | kwUntil => "UNTIL"
  | kwWait => "WAIT"
  | kwMoveto => "MOVETO"
  | kwRotate => "ROTATE"
  | kwHome => "HOME"
  | kwStop => "STOP"
  | tyInteger => "INTEGER"
  | tyReal => "REAL"
  | tyBool => "BOOL"
  | pinIn => "PININ"
  | pinOut => "PINOUT"
  | other name => name

/-- Every kind of the language. -/
def all : List Kind :=
  [eof, ident, integerConst, realConst, boolConst, assign, plus, minus, mul,
    integerDiv, floatDiv, equal, notEqual, less, lessEq, greater, greaterEq,
    lparen, rparen, semi, colon, comma, dot, kwProgram, kwBegin, kwEnd, kwVar,
    kwPins, kwWaypoint, kwIf, kwElse, kwEndif, kwLoop, kwUntil, kwWait,
    kwMoveto, kwRotate, kwHome, kwStop, tyInteger, tyReal, tyBool, pinIn,
    pinOut]

/-- The kind with a given name; a name outside the vocabulary stands for
itself. -/
def ofName (s : String) : Kind :=
  (all.find? fun k => k.name == s).getD (other s)

/-- Comparisons: two operands in, a truth value out. -/
def isRelational : Kind → Bool
  | equal | notEqual | less | lessEq | greater | greaterEq => true
  | _ => false

/-- The operators of a sum, which double as signs. -/
def isAdditive : Kind → Bool
  | plus | minus => true
  | _ => false

/-- The operators of a product. -/
def isMultiplicative : Kind → Bool
  | mul | integerDiv | floatDiv => true
  | _ => false

/-- The types a variable may be declared with. -/
def isVariableType : Kind → Bool
  | tyInteger | tyReal | tyBool => true
  | _ => false

/-- The directions a pin may be declared with. -/
def isDirection : Kind → Bool
  | pinIn | pinOut => true
  | _ => false

/-- The reserved words and the kind each of them has. -/
def reservedWords : List (String × Kind) :=
  [("PROGRAM", kwProgram), ("BEGIN", kwBegin), ("END", kwEnd), ("VAR", kwVar),
    ("IO", kwPins), ("WAYPOINT", kwWaypoint), ("IF", kwIf), ("ELSE", kwElse),
    ("ENDIF", kwEndif), ("LOOP", kwLoop), ("UNTIL", kwUntil), ("WAIT", kwWait),
    ("MOVETO", kwMoveto), ("ROTATE", kwRotate), ("HOME", kwHome),
    ("STOP", kwStop), ("INTEGER", tyInteger), ("REAL", tyReal),
    ("BOOL", tyBool), ("PININ", pinIn), ("PINOUT", pinOut), ("DIV", integerDiv),
    ("TRUE", boolConst), ("FALSE", boolConst)]

/-- Whether a word is reserved. Case matters. -/
def isReserved (word : String) : Bool := (reservedWords.lookup word).isSome

/-- The kind of a word: its own if it is reserved, an identifier otherwise. -/
def ofWord (word : String) : Kind := (reservedWords.lookup word).getD ident

/-- The spellings of operators and delimiters. Where two of them start alike,
the longer one is meant. -/
def spellings : List (String × Kind) :=
  [(":=", assign), ("==", equal), ("!=", notEqual), ("<=", lessEq),
    (">=", greaterEq), ("<", less), (">", greater), ("+", plus), ("-", minus),
    ("*", mul), ("/", floatDiv), ("(", lparen), (")", rparen), (";", semi),
    (":", colon), (",", comma), (".", dot)]

/-- The kind an operator or delimiter is spelt for. -/
def ofSpelling? (s : String) : Option Kind := spellings.lookup s

end Kind

end Fixture
