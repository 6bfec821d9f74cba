import Fixture.CommandLine.Help
import Fixture.Journal.Lines
import Fixture.Parse
import Fixture.Run
import Fixture.SerialLine
import Fixture.Text.Grid
import Fixture.Text.Utf8
import Fixture.Tree.Dump
import Fixture.Tree.Render
/-!
# The command line

From arguments to an outcome: what is printed, what is logged, and what went
wrong. The world outside is only reached through `Surroundings`, so the same
commands run in memory and on real files. Settings files are left to a package
for TOML documents, and a command is told of its flags by a `Context`.

Flags come first, then help and version, then the journal, and last the
command. The settings are the standard ones, changed by the settings file and
then by the flags.
-/

namespace Fixture

namespace CommandLine

/-! ## Outcomes -/

/-- What can go wrong. -/
inductive Failure where
  | usage (e : FlagError)
  | file (e : FileError)
  /-- Settings could not be written. -/
  | settings (e : Toml.Error)
  | settingsFile (path : String) (e : Toml.Error)
  /-- The level or form of the journal is not known. -/
  | journal (text : String)
  | scanning (path : String) (e : LexError)
  | parsing (path : String) (e : ParseError)
  | running (path : String) (h : Halt EncoderError)
  /-- Help was asked for on something that there is none for. -/
  | noTopic (name : String)

/--
The text of a failure. What concerns a file begins with its name, in the case
of a settings file only if a line of it is to blame.
-/
def Failure.message : Failure → String
  | usage e => e.message
  | file e => e.message
  | settings e => e.message
  | settingsFile path e =>
    if e.line?.isSome then path ++ ", " ++ e.message else e.message
  | journal text => text
  | scanning path e => path ++ ": " ++ e.message
  | parsing path e => path ++ ": " ++ e.message
  | running path h => path ++ ": " ++ h.message EncoderError.message
  | noTopic name => "No help topic for '" ++ name ++ "'"

/-- What a command line comes to. -/
structure Outcome where
  out : String
  log : List String
  failure : Option Failure

namespace Outcome

/-- Something to print, and nothing else. -/
def printed (text : String) : Outcome := ⟨text, [], none⟩

/-- A failure, with something to print before it. -/
def failed (f : Failure) (text : String) : Outcome := ⟨text, [], some f⟩

/-- The exit code. -/
def exitCode (o : Outcome) : Nat :=
  match o.failure with
  | none => 0
  | some (.noTopic _) => 3
  | some _ => 1

/-- The lines beside the output: the log, and the failure, whose text may take
more than one. -/
def report (o : Outcome) : List String :=
  o.log ++
    match o.failure with
    | none => []
    | some (.noTopic name) => Text.divided '\n' (Failure.noTopic name).message
    | some f => Text.divided '\n' ("error: " ++ f.message)

end Outcome

/-! ## Flags -/

/--
What a package for command lines tells a command: the flags before the command
and its own flags, by their names, and its arguments. A flag that is not set
is empty, zero or off.
-/
structure Context where
  globalString : String → String
  globalInt : String → Int64
  globalBool : String → Bool
  globalIsSet : String → Bool
  bool : String → Bool
  args : List String

/-- What a command is told of the flags before it and of its own. -/
def Context.ofFlags (globals own : Flags.Result) : Context where
  globalString := globals.text
  globalInt := globals.whole
  globalBool := globals.switch
  globalIsSet name := (globals.named? name).isSome
  bool := own.switch
  args := own.rest

/-! ## Settings -/

variable {m : Type → Type} [Monad m]

/-- Reads a settings file over settings. -/
def load (toml : Toml.Package) (w : Surroundings m) (path : String)
    (c : Settings) : m (Except Failure Settings) := do
  match ← w.read path with
  | .error e => return .error (.file e)
  | .ok bytes =>
    match c.decode toml bytes with
    | .ok c => return .ok c
    | .error e => return .error (.settingsFile path e)

/-- Changes settings by a flag, if it is set. -/
def applyFlag (ctx : Context) (f : Flag) (c : Settings)
    (change : String → Settings → Settings) : Settings :=
  if ctx.globalIsSet f.name then change f.name c else c

/-- Changes settings by the flags that are set. -/
def applyFlags (ctx : Context) (c : Settings) : Settings :=
  let c := applyFlag ctx deviceFlag c fun name c =>
    { c with serial := { c.serial with device := ctx.globalString name } }
  let c := applyFlag ctx baudFlag c fun name c =>
    { c with serial := { c.serial with baud := ctx.globalInt name } }
  let c := applyFlag ctx noSerialFlag c fun name c =>
    { c with serial := { c.serial with disabled := ctx.globalBool name } }
  let c := applyFlag ctx verbosityFlag c fun name c =>
    { c with log := { c.log with level := ctx.globalString name } }
  applyFlag ctx logFormatFlag c fun name c =>
    { c with log := { c.log with format := ctx.globalString name } }

/-- The settings of the file and the flags, over the standard ones. -/
def makeSettings (toml : Toml.Package) (w : Surroundings m) (ctx : Context) :
    m (Except Failure Settings) := do
  let file := ctx.globalString configFlag.name
  if file.isEmpty then return .ok (applyFlags ctx Settings.standard)
  else
    match ← load toml w file Settings.standard with
    | .error e => return .error e
    | .ok c => return .ok (applyFlags ctx c)

/-- An empty journal, and the form of its lines. -/
structure Logging where
  journal : Journal
  format : LineFormat

/-- Gets the journal ready. -/
def setupLogging (toml : Toml.Package) (w : Surroundings m) (ctx : Context) :
    m (Except Failure Logging) := do
  match ← makeSettings toml w ctx with
  | .error e => return .error e
  | .ok c =>
    match Level.ofText c.log.level, LineFormat.ofText c.log.format with
    | .error e, _ => return .error (.journal e)
    | _, .error e => return .error (.journal e)
    | .ok level, .ok format => return .ok ⟨Journal.atLeast level, format⟩

/-! ## Commands -/

/-- The source file where none is named. -/
def defaultFile : String := "cliq_test.txt"

/-- The source file that arguments name. -/
def sourceFile (args : List String) : String := args.headD defaultFile

/-- The values of a run, one on a line. -/
def bindingLines (t : Tables) : String :=
  String.join
    (t.values.sorted.map fun (name, v) => name ++ " = " ++ v.inspect ++ "\n")

/-- The values of a run as a grid. -/
def bindingGrid (t : Tables) : Text.Grid where
  header := ["NAME", "TYPE", "VALUE"]
  rows := t.values.sorted.map fun (name, v) => [name, v.kind.name, v.inspect]

/-- The journal entry about a line that is not to be had, if one was wanted. -/
def lineEntries (w : Surroundings m) (s : SerialSettings) : m (List Entry) := do
  if s.disabled then return []
  else
    let e ← SerialLine.dial w s
    return [⟨.warn, "Serial port unavailable, commands are only displayed",
      [("device", .text s.device), ("err", .text e.message)]⟩]

/--
Runs a program on an encoder that only displays. `id` names the run in the
journal.
-/
def execute (c : Settings) (logging : Logging) (ctx : Context)
    (id file : String) (entries : List Entry) (p : Program) : Outcome :=
  let started : Entry := ⟨.info, "Running program",
    [("file", .text file), ("program", .text p.name), ("run", .text id)]⟩
  let encoder : Encoder := ⟨c.axes, false, true, false, Outlet.reliable⟩
  let rig : Rig Encoder :=
    ⟨encoder, 0, logging.journal.addAll (entries ++ [started])⟩
  let finish (w : World (Rig Encoder)) (entry : Entry) (text : String)
      (failure : Option Failure) : Outcome :=
    ⟨String.join (w.host.machine.outlet.lines.map (· ++ "\n")) ++ text,
      (w.host.journal.add entry).lines logging.format, failure⟩
  match (Run.interpret (Encoder.machine.host none) Run.ample p).run
    ⟨Tables.empty, rig⟩ with
  | .error h w =>
    finish w ⟨.error, "Program failed",
      [("run", .text id), ("err", .text (h.message EncoderError.message))]⟩
      "" (some (.running file h))
  | .ok _ w =>
    finish w ⟨.debug, "Program finished",
      [("run", .text id), ("bindings", .whole w.tables.values.size)]⟩
      (if ctx.globalBool tableFlag.name then (bindingGrid w.tables).render
        else bindingLines w.tables) none

/-- Runs the program of a file and prints the values that it leaves. -/
def runProgram (toml : Toml.Package) (w : Surroundings m) (logging : Logging)
    (id : String) (ctx : Context) : m Outcome := do
  match ← makeSettings toml w ctx with
  | .error e => return .failed e ""
  | .ok c =>
    let file := sourceFile ctx.args
    match ← w.read file with
    | .error e => return .failed (.file e) ""
    | .ok src =>
      match parse src with
      | .error e => return .failed (.parsing file e) ""
      | .ok p =>
        return execute c logging ctx id file (← lineEntries w c.serial) p

/-- A line of a token listing. -/
def tokenLine (t : Token) : String :=
  toString t.pos.line ++ ":" ++ toString t.pos.column ++ "\t" ++ t.kind.name ++
    "\t" ++ Text.quoted t.literal ++ "\n"

/-- Lists the tokens of a file, up to the first that is none. -/
def listTokens (w : Surroundings m) (args : List String) : m Outcome := do
  let file := sourceFile args
  match ← w.read file with
  | .error e => return .failed (.file e) ""
  | .ok src =>
    let s := scan src
    return ⟨String.join (s.tokens.map tokenLine), [],
      s.failure.map (.scanning file)⟩

/-- Prints the tree of a file, as source or as a dump. -/
def showTree (w : Surroundings m) (raw : Bool) (args : List String) :
    m Outcome := do
  let file := sourceFile args
  match ← w.read file with
  | .error e => return .failed (.file e) ""
  | .ok src =>
    match parse src with
    | .error e => return .failed (.parsing file e) ""
    | .ok p =>
      if raw then return .printed (String.join (p.dump.map (· ++ "\n")))
      else return .printed (p.render ++ "\n")

/-- Prints the settings, or writes them to a file. -/
def dumpSettings (toml : Toml.Package) (w : Surroundings m) (ctx : Context) :
    m Outcome := do
  match ← makeSettings toml w ctx with
  | .error e => return .failed e ""
  | .ok c =>
    match c.marshal toml with
    | .error e => return .failed (.settings e) ""
    | .ok bytes =>
      match ctx.args with
      | [] => return .printed (Text.ofUtf8 bytes)
      | path :: _ =>
        match ← w.write path bytes with
        | some e => return .failed (.file e) ""
        | none => return .printed ""

/-- Shows help on everything, or on one command. An empty name gives an
overview. -/
def showHelp : List String → Outcome
  | [] => .printed help
  | "" :: _ => .printed overview
  | name :: _ =>
    match Task.ofName? name with
    | some t => .printed t.helpText
    | none => .failed (.noTopic name) ""

/-- Does a task once its flags are read. -/
def perform (toml : Toml.Package) (w : Surroundings m) (logging : Logging)
    (id : String) (t : Task) (ctx : Context) : m Outcome :=
  match t with
  | .run => runProgram toml w logging id ctx
  | .tokens => listTokens w ctx.args
  | .ast => showTree w (ctx.bool rawFlag.name) ctx.args
  | .dumpconfig => dumpSettings toml w ctx
  | .help => return showHelp ctx.args

/--
Reads the flags of a task, which may stand behind its arguments, and does it.
-/
def runTask (toml : Toml.Package) (w : Surroundings m) (logging : Logging)
    (id : String) (globals : Flags.Result) (t : Task) (args : List String) :
    m Outcome :=
  let flags := t.flags ++ [helpFlag]
  let own := Flags.read flags (Flags.arranged args)
  match own.twoForms? flags, own.failure with
  | some e, _ =>
    return .failed (.usage e) (e.message ++ "\n\n" ++ t.helpText)
  | none, some e =>
    return .failed (.usage e)
      ("Incorrect Usage: " ++ e.message ++ "\n\n" ++ t.helpText)
  | none, none =>
    if own.isOn helpFlag then return .printed t.helpText
    else perform toml w logging id t (.ofFlags globals own)

/--
Does what a command line asks for. The first argument may name a task; without
one, a program is run.
-/
def run (toml : Toml.Package) (w : Surroundings m) (id : String)
    (args : List String) : m Outcome := do
  let given := Flags.read globalFlags args
  match given.twoForms? globalFlags, given.failure with
  | some e, _ => return .failed (.usage e) (e.message ++ "\n" ++ help)
  | none, some e =>
    return .failed (.usage e)
      ("Incorrect Usage. " ++ e.message ++ "\n\n" ++ help)
  | none, none =>
    if given.isOn helpFlag then return .printed help
    else if given.isOn versionFlag then return .printed versionLine
    else
      let ctx := Context.ofFlags given given
      match ← setupLogging toml w ctx with
      | .error e => return .failed e help
      | .ok logging =>
        match given.rest with
        | [] => runProgram toml w logging id ctx
        | name :: rest =>
          match Task.ofName? name with
          | some t => runTask toml w logging id given t rest
          | none => runProgram toml w logging id ctx

end CommandLine

end Fixture
