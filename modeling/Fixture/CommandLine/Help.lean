import Fixture.CommandLine.Flags
import Fixture.Text.Join
/-!
# Help

The commands and flags of the program, and the help texts that list them.
-/

namespace Fixture

namespace CommandLine

/-- The name of the program. -/
def programName : String := "cliq"

/-- The version of the program. -/
def version : String := "0.1.0"

/-! ## Flags -/

/-- The settings file. -/
def configFlag : Flag := ⟨"config", none, .text, "TOML configuration file"⟩

/-- The device of the line to the controller. -/
def deviceFlag : Flag :=
  ⟨"device", none, .text, "Serial device of the motor controller"⟩

/-- The rate of the line to the controller. -/
def baudFlag : Flag := ⟨"baud", none, .whole, "Serial baud rate"⟩

/-- Leaves the line alone. -/
def noSerialFlag : Flag :=
  ⟨"no-serial", none, .switch,
    "Only display the motion commands, do not open the serial port"⟩

/-- What goes to the journal. -/
def verbosityFlag : Flag :=
  ⟨"verbosity", none, .text, "Log level: debug, info, warn or error"⟩

/-- The form of journal lines. -/
def logFormatFlag : Flag :=
  ⟨"log-format", none, .text, "Log format: text or json"⟩

/-- Prints bindings as a grid. -/
def tableFlag : Flag :=
  ⟨"table", none, .switch, "Print the final variable bindings as a table"⟩

/-- Prints trees as dumps. -/
def rawFlag : Flag :=
  ⟨"raw", none, .switch,
    "Dump the syntax tree structure instead of rendering it as source"⟩

/-- Asks for help. -/
def helpFlag : Flag := ⟨"help", some "h", .switch, "show help"⟩

/-- Asks for the version. -/
def versionFlag : Flag := ⟨"version", some "v", .switch, "print the version"⟩

/-- The flags before a command. -/
def globalFlags : List Flag :=
  [configFlag, deviceFlag, baudFlag, noSerialFlag, verbosityFlag, logFormatFlag,
    tableFlag, helpFlag, versionFlag]

/-! ## Commands -/

/-- What can be asked of the program. -/
inductive Task where
  | run
  | tokens
  | ast
  | dumpconfig
  | help
deriving DecidableEq

namespace Task

/-- All tasks in the order of their listing. -/
def all : List Task := [run, tokens, ast, dumpconfig, help]

/-- The names of a task. -/
def names : Task → List String
  | run => ["run"]
  | tokens => ["tokens"]
  | ast => ["ast"]
  | dumpconfig => ["dumpconfig"]
  | help => ["help", "h"]

/-- The task with a name. -/
def ofName? (name : String) : Option Task :=
  all.find? fun t => t.names.contains name

/-- The name of a task in its own help. Help goes without. -/
def title : Task → String
  | run => "cliq run"
  | tokens => "cliq tokens"
  | ast => "cliq ast"
  | dumpconfig => "cliq dumpconfig"
  | help => ""

/-- What a task does. -/
def usage : Task → String
  | run => "Run a program and print the final variable bindings"
  | tokens => "Print the tokens of a program with their positions"
  | ast => "Print the syntax tree of a program"
  | dumpconfig => "Show configuration values"
  | help => "Shows a list of commands or help for one command"

/-- The argument that a task takes. -/
def operand : Task → String
  | run | tokens | ast => "[file]"
  | dumpconfig => "[output]"
  | help => "[command]"

/-- More on a task, if there is more to say. -/
def description? : Task → Option String
  | dumpconfig =>
    some ("The dumpconfig command shows the configuration after the file " ++
      "and the flags are applied.")
  | _ => none

/-- The flags of a task that its help lists. -/
def flags : Task → List Flag
  | ast => [rawFlag]
  | _ => []

end Task

/-! ## Texts -/

/-- The name column of a flag. -/
def flagName (f : Flag) : String :=
  Text.joined ", " (("--" ++ f.name) :: f.short.toList.map ("-" ++ ·)) ++
    match f.kind with
    | .switch => ""
    | _ => " value"

/-- The text column of a flag. -/
def flagUsage (f : Flag) : String :=
  match f.kind with
  | .whole => f.usage ++ " (default: 0)"
  | _ => f.usage

/-- Two columns, the second one two blanks behind the longest entry of the
first. -/
def columns (rows : List (String × String)) : List String :=
  let width := (rows.map fun r => r.1.length).foldl max 0 + 2
  rows.map fun (l, r) =>
    l ++ String.ofList (List.replicate (width - l.length) ' ') ++ r

/-- Lines with a margin. -/
def indented (margin : String) (lines : List String) : String :=
  String.join (lines.map fun l => margin ++ l ++ "\n")

/-- A part of a help text with a title. -/
def part (title body : String) : String := title ++ ":\n" ++ body

/-- The part that names the program. -/
def namePart : String :=
  part "NAME" (indented "   " [programName ++ " - run motion fixture programs"])

/-- The part that lists the tasks. -/
def commandsPart : String :=
  part "COMMANDS" (indented "     "
    (columns (Task.all.map fun t => (Text.joined ", " t.names, t.usage))))

/-- The lines of a list of flags. -/
def flagLines (flags : List Flag) : List String :=
  columns (flags.map fun f => (flagName f, flagUsage f))

/-- The help of the program. -/
def help : String :=
  Text.joined "\n" [namePart,
    part "USAGE" (indented "   "
      [programName ++ " [global options] command [command options] [file]"]),
    part "VERSION" (indented "   " [version]), commandsPart,
    part "GLOBAL OPTIONS" (indented "   " (flagLines globalFlags))]

/-- The options of a task or of the program, with an empty line at their end. -/
def optionsPart (flags : List Flag) : String :=
  part "OPTIONS" (indented "   " (flagLines flags ++ [""]))

/-- The help of the program where it is taken for a task like others. -/
def overview : String :=
  Text.joined "\n" [namePart,
    part "USAGE"
      (indented "   " [programName ++ " command [command options] [file]"]),
    commandsPart, optionsPart globalFlags]

/-- The help of a task. -/
def Task.helpText (t : Task) : String :=
  let invocation :=
    t.title ++ (if t.flags.isEmpty then " " else " [command options] ") ++
      t.operand
  Text.joined "\n" ([part "NAME" (indented "   " [t.title ++ " - " ++ t.usage]),
    part "USAGE" (indented "   " [invocation])] ++
    t.description?.toList.map
      (fun d => part "DESCRIPTION" (indented "   " [d])) ++
    (if t.flags.isEmpty then [] else [optionsPart t.flags]))

/-- The line that tells the version. -/
def versionLine : String := programName ++ " version " ++ version ++ "\n"

end CommandLine

end Fixture
