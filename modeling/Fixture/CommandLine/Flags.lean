import Fixture.Numeral.Radix
import Fixture.Text.Quoted
/-!
# Flags

Flags come before other arguments, with one dash or two, and with a value after
an equals sign or in the next argument. Two dashes alone end them, and so does
the first argument that is no flag; a dash alone is none. A switch needs no
value, and takes one only after an equals sign.

What was given before a fault is kept, since help may have been asked for twice
by then.
-/

namespace Fixture

/-- What a flag takes. -/
inductive FlagKind where
  | text
  | whole
  | switch
deriving DecidableEq

/-- A flag. -/
structure Flag where
  name : String
  /-- A second form of the name. -/
  short : Option String
  kind : FlagKind
  usage : String

/-- The forms of a flag's name. -/
def Flag.forms (f : Flag) : List String := f.name :: f.short.toList

/-- The value of a flag. -/
inductive FlagValue where
  | text (s : String)
  | whole (n : Int64)
  | switch (b : Bool)
deriving DecidableEq

/-- What is wrong with flags. -/
inductive FlagError where
  | badSyntax (arg : String)
  | undefined (name : String)
  | needsArgument (name : String)
  | badValue (value name : String) (fault : Numeral.RadixFault)
  | badSwitch (value name : String)
  | twoForms (second first : String)
deriving DecidableEq

/-- The text of an error. -/
def FlagError.message : FlagError → String
  | badSyntax arg => "bad flag syntax: " ++ arg
  | undefined name => "flag provided but not defined: -" ++ name
  | needsArgument name => "flag needs an argument: -" ++ name
  | badValue value name fault =>
    "invalid value " ++ Text.quoted value ++ " for flag -" ++ name ++ ": " ++
      match fault with
      | .malformed => "parse error"
      | .outOfRange => "value out of range"
  | badSwitch value name =>
    "invalid boolean value " ++ Text.quoted value ++ " for -" ++ name ++
      ": parse error"
  | twoForms second first =>
    "Cannot use two forms of the same flag: " ++ second ++ " " ++ first

namespace Flags

/-- What an argument is. -/
inductive Argument where
  | plain
  /-- The end of all flags. -/
  | terminator
  | malformed
  | flag (name : String) (value : Option String)

/-- A flag without its dashes, split at its equals sign. The sign cannot come
first. -/
def named : List Char → Argument
  | [] => .malformed
  | c :: cs =>
    if c = '-' || c = '=' then .malformed
    else
      let name := String.ofList (c :: cs.takeWhile (· ≠ '='))
      match cs.dropWhile (· ≠ '=') with
      | [] => .flag name none
      | _ :: value => .flag name (some (String.ofList value))

/-- Tells what an argument is. -/
def classify (arg : String) : Argument :=
  match arg.toList with
  | ['-', '-'] => .terminator
  | '-' :: '-' :: cs => named cs
  | '-' :: c :: cs => named (c :: cs)
  | _ => .plain

/-- Reads a truth value. -/
def truth? (s : String) : Option Bool :=
  if ["1", "t", "T", "true", "TRUE", "True"].contains s then some true
  else if ["0", "f", "F", "false", "FALSE", "False"].contains s then some false
  else none

/-- Reads the value of a flag, under the form of its name that was used. -/
def value (kind : FlagKind) (name s : String) : Except FlagError FlagValue :=
  match kind with
  | .text => .ok (.text s)
  | .whole =>
    match Numeral.radixInteger s with
    | .ok n => .ok (.whole n)
    | .error fault => .error (.badValue s name fault)
  | .switch =>
    match truth? s with
    | some b => .ok (.switch b)
    | none => .error (.badSwitch s name)

/-- Flags read off arguments: what was given, by the forms that were used, what
is left, and what went wrong. -/
structure Result where
  given : List (String × FlagValue)
  rest : List String
  failure : Option FlagError

/-- Nothing but an error. -/
def Result.error (e : FlagError) : Result := ⟨[], [], some e⟩

/-- Puts a flag before others. -/
def Result.push (name : String) (v : FlagValue) (r : Result) : Result :=
  { r with given := (name, v) :: r.given }

/-- Reads flags off the front of arguments. -/
def read (flags : List Flag) : List String → Result
  | [] => ⟨[], [], none⟩
  | arg :: rest =>
    match classify arg with
    | .plain => ⟨[], arg :: rest, none⟩
    | .terminator => ⟨[], rest, none⟩
    | .malformed => .error (.badSyntax arg)
    | .flag name given =>
      match flags.find? fun f => f.forms.contains name with
      | none => .error (.undefined name)
      | some f =>
        match given, f.kind, rest with
        | some s, kind, rest =>
          match value kind name s with
          | .ok v => (read flags rest).push name v
          | .error e => .error e
        | none, .switch, rest => (read flags rest).push name (.switch true)
        | none, _, [] => .error (.needsArgument name)
        | none, kind, s :: rest =>
          match value kind name s with
          | .ok v => (read flags rest).push name v
          | .error e => .error e

/-- The forms of a flag that were used, in the order of its forms. -/
def Result.used (r : Result) (f : Flag) : List String :=
  f.forms.filter fun n => r.given.any fun g => g.1 == n

/-- The error of the first flag that was given in two forms, if there is one. -/
def Result.twoForms? (r : Result) (flags : List Flag) : Option FlagError :=
  flags.findSome? fun f =>
    match r.used f with
    | first :: second :: _ => some (.twoForms second first)
    | _ => none

/-- The last value that was given to a flag, in any form. -/
def Result.value? (r : Result) (f : Flag) : Option FlagValue :=
  (r.given.reverse.find? fun g => f.forms.contains g.1).map Prod.snd

/-- The last value that was given under a name. -/
def Result.named? (r : Result) (name : String) : Option FlagValue :=
  (r.given.reverse.find? fun g => g.1 == name).map Prod.snd

/-- The text that was given under a name. -/
def Result.text (r : Result) (name : String) : String :=
  match r.named? name with
  | some (.text s) => s
  | _ => ""

/-- The number that was given under a name. -/
def Result.whole (r : Result) (name : String) : Int64 :=
  match r.named? name with
  | some (.whole n) => n
  | _ => 0

/-- Whether a switch was turned on under a name. -/
def Result.switch (r : Result) (name : String) : Bool :=
  match r.named? name with
  | some (.switch b) => b
  | _ => false

/-- Whether a switch was turned on, under any form of its name. -/
def Result.isOn (r : Result) (f : Flag) : Bool :=
  r.value? f == some (.switch true)

/-- Moves flags, and all that stands between them, before the arguments that
they follow. What two dashes alone keep apart stays behind them. -/
def arranged (args : List String) : List String :=
  let before := args.takeWhile (· ≠ "--")
  let behind := args.dropWhile (· ≠ "--")
  let isFlag (s : String) : Bool := s ≠ "-" && s.toList.head? == some '-'
  before.dropWhile (fun s => !isFlag s) ++
    before.takeWhile (fun s => !isFlag s) ++ behind

end Flags

end Fixture
