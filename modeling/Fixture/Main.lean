import Fixture.CommandLine
import Fixture.Toml.Package
/-!
# The program

The command line on real files. A run gets a random identifier, output goes to
the standard output, and the log and the failure go to the standard error.
-/

namespace Fixture

/-- Text with its first letter in lower case, the way obstacles are told. -/
def uncapitalized (s : String) : String :=
  match s.toList with
  | [] => ""
  | c :: cs => String.ofList (c.toLower :: cs)

/-- Why a path cannot be used, by what the system says. -/
def Obstacle.ofDetails (details : String) : Obstacle :=
  match uncapitalized details with
  | "is a directory" => .isDirectory
  | "not a directory" => .notDirectory
  | text => .other text

/-- Why the system does not let a path be used. -/
def Obstacle.ofError : IO.Error → Obstacle
  | .noFileOrDirectory _ _ _ => .missing
  | .inappropriateType _ _ details | .permissionDenied _ _ details |
      .invalidArgument _ _ details | .resourceExhausted _ _ details |
      .resourceBusy _ details => .ofDetails details
  | e => .other (toString e)

/-- The error of a file that could not be read. Directories are opened, and fail
after that. -/
def FileError.ofReading (path : String) (e : IO.Error) : FileError :=
  match Obstacle.ofError e with
  | .isDirectory => ⟨.reading, path, .isDirectory⟩
  | o => ⟨.opening, path, o⟩

/-- The files of the system. -/
def systemSurroundings : Surroundings IO where
  read path := do
    try return .ok (← IO.FS.readBinFile path).toList
    catch e => return .error (.ofReading path e)
  write path bytes := do
    try
      IO.FS.writeBinFile path ⟨bytes.toArray⟩
      return none
    catch e => return some ⟨.opening, path, .ofError e⟩
  dial path := do
    try
      let _ ← IO.FS.Handle.mk path .readWrite
      return .notTerminal
    catch e => return .ofError e

/-- An identifier of random bytes, in the usual groups of hexadecimal digits. -/
def identifier (bytes : List UInt8) : String :=
  let set (i : Nat) (b : UInt8) : UInt8 :=
    if i = 6 then b % 16 + 64 else if i = 8 then b % 64 + 128 else b
  let digits :=
    (bytes.zipIdx.map fun (b, i) => Text.hex 2 (set i b).toNat).flatten
  let group (start size : Nat) : String :=
    String.ofList ((digits.drop start).take size)
  Text.joined "-" [group 0 8, group 8 4, group 12 4, group 16 4, group 20 12]

end Fixture

/-- Does what the arguments ask for. -/
def main (args : List String) : IO UInt32 := do
  let id := Fixture.identifier (← IO.getRandomBytes 16).toList
  let outcome ← Fixture.CommandLine.run Fixture.Toml.package
    Fixture.systemSurroundings id args
  IO.print outcome.out
  for line in outcome.report do
    IO.eprintln line
  return outcome.exitCode.toUInt32
