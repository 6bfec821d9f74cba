import Fixture.Folder
/-!
# Surroundings

What commands need of the world around them: to read files, to write files, and
to try a serial device. A folder in memory is one such world.
-/

namespace Fixture

/-- The world around a command. -/
structure Surroundings (m : Type → Type) where
  read : String → m (Except FileError (List UInt8))
  write : String → List UInt8 → m (Option FileError)
  /-- Tries a serial device. Setting up a line is beyond a file's abilities, so
  what comes back is always a reason against it. -/
  dial : String → m Obstacle

/-- A folder as the world around a command. -/
def Folder.surroundings : Surroundings (StateM Folder) where
  read path := do return (← get).read path
  write path bytes := modifyGet fun f => f.write path bytes
  dial path := do return (← get).dial path

end Fixture
