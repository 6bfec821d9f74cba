import Fixture.Text.Join
/-!
# Files

What can go wrong with a path, and files in memory. A folder holds files and
directories by their whole paths, and has a working directory that relative
paths start from. A path is followed step by step, so a step through something
that is no directory fails where it is taken.
-/

namespace Fixture

/-- Why a path cannot be used. -/
inductive Obstacle where
  | missing
  | isDirectory
  | notDirectory
  /-- The path leads to something that cannot be set up as a line. -/
  | notTerminal
  /-- The path, or a step of it, has more bytes than a path can have. -/
  | tooLong
  /-- The path has a zero byte in it. -/
  | invalid
  | other (text : String)
deriving DecidableEq

/-- The text of an obstacle. -/
def Obstacle.text : Obstacle → String
  | missing => "no such file or directory"
  | isDirectory => "is a directory"
  | notDirectory => "not a directory"
  | notTerminal => "inappropriate ioctl for device"
  | tooLong => "file name too long"
  | invalid => "invalid argument"
  | other text => text

/-- What was being done to a file when it failed. -/
inductive FileAction where
  | opening
  | reading
deriving DecidableEq

/-- The name of an action. -/
def FileAction.name : FileAction → String
  | opening => "open"
  | reading => "read"

/-- A file that could not be used. -/
structure FileError where
  action : FileAction
  path : String
  obstacle : Obstacle
deriving DecidableEq

/-- The text of an error. -/
def FileError.message (e : FileError) : String :=
  e.action.name ++ " " ++ e.path ++ ": " ++ e.obstacle.text

/-- What a path leads to. -/
inductive Place where
  | directory
  | file (bytes : List UInt8)

/-- Files and directories by the steps to them from the root. The directories on
the way to a file need not be listed. -/
structure Folder where
  working : List String
  directories : List (List String)
  files : List (List String × List UInt8)

namespace Folder

/-- What the given steps lead to. -/
def place? (f : Folder) (steps : List String) : Option Place :=
  match f.files.lookup steps with
  | some bytes => some (.file bytes)
  | none =>
    let known := f.working :: f.directories ++ f.files.map (·.1)
    if known.any (steps.isPrefixOf ·) then some .directory else none

/-- Goes on from some place, step by step. The last step may lead to nothing. -/
def follow (f : Folder) :
    List String → List String → Except Obstacle (List String)
  | here, [] => .ok here
  | here, step :: steps =>
    match f.place? here with
    | none => .error .missing
    | some (.file _) => .error .notDirectory
    | some .directory =>
      if step = "" || step = "." then f.follow here steps
      else if step = ".." then f.follow here.dropLast steps
      else if 255 < step.utf8ByteSize then .error .tooLong
      else f.follow (here ++ [step]) steps

/-- Follows the given steps of a path, from the root if the path begins
there. -/
def trace (f : Folder) (path : String) (steps : List String) :
    Except Obstacle (List String) :=
  if path.toList.contains (Char.ofNat 0) then .error .invalid
  else if 4096 ≤ path.utf8ByteSize then .error .tooLong
  else
    match path.toList with
    | [] => .error .missing
    | '/' :: _ => f.follow [] steps
    | _ => f.follow f.working steps

/-- The steps that a path stands for. -/
def locate (f : Folder) (path : String) : Except Obstacle (List String) :=
  f.trace path (Text.divided '/' path)

/-- The steps to a file that may yet have to be made. A path with a slash at its
end can only name a directory, so its last step is not taken: the way is
followed up to the directory that would hold it. -/
def locateNew (f : Folder) (path : String) : Except Obstacle (List String) :=
  let steps := Text.divided '/' path
  if steps.getLast? = some "" then
    match f.trace path
      ((steps.reverse.dropWhile (· = "")).reverse.dropLast ++ [""]) with
    | .error o => .error o
    | .ok _ => .error .isDirectory
  else f.trace path steps

/-- Reads a file. A directory can be opened, but not read. -/
def read (f : Folder) (path : String) : Except FileError (List UInt8) :=
  match f.locate path with
  | .error o => .error ⟨.opening, path, o⟩
  | .ok steps =>
    match f.place? steps with
    | none => .error ⟨.opening, path, .missing⟩
    | some .directory => .error ⟨.reading, path, .isDirectory⟩
    | some (.file bytes) => .ok bytes

/-- Writes a file, new or not. -/
def write (f : Folder) (path : String) (bytes : List UInt8) :
    Option FileError × Folder :=
  match f.locateNew path with
  | .error o => (some ⟨.opening, path, o⟩, f)
  | .ok steps =>
    match f.place? steps with
    | some .directory => (some ⟨.opening, path, .isDirectory⟩, f)
    | _ =>
      (none, { f with
        files := (steps, bytes) :: f.files.filter fun e => e.1 != steps })

/-- Why a path is no line to a controller. Nothing in memory is. -/
def dial (f : Folder) (path : String) : Obstacle :=
  match f.locate path with
  | .error o => o
  | .ok steps =>
    match f.place? steps with
    | none => .missing
    | some .directory => .isDirectory
    | some (.file _) => .notTerminal

end Folder

end Fixture
