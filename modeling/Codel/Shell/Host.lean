import Codel.Files.Access
import Codel.RunId

namespace Codel.Shell

/-- The surroundings of a command. Running a tape program to its end is left to them, since it may
have none. -/
structure Host (m : Type → Type) where
  files : FileAccess m
  /-- All of the standard input. -/
  input : m Bytes
  /-- The cells that a tape program writes, given its text and its input. -/
  finishTape : Bytes → Bytes → m Bytes
  freshRun : m RunId
  /-- The time as it stands in log lines. -/
  stamp : m String
  name : m String
  /-- The milliseconds of the clock as a metric shows them. -/
  milliseconds : m String

/-- What a command comes to. -/
structure Reply where
  exit : Nat := 0
  stdout : Bytes := []
  stderr : String := ""
deriving DecidableEq, Repr

namespace Reply

/-- Text for the standard output. -/
def ofText (s : String) : Reply := { stdout := Bytes.ofString s }

def fail (r : Reply) (message : String) : Reply :=
  { r with exit := 1, stderr := r.stderr ++ "Error: " ++ message ++ "\n" }

def ofError (message : String) : Reply := Reply.fail {} message

/-- More text for the standard error. -/
def note (r : Reply) (s : String) : Reply := { r with stderr := r.stderr ++ s }

end Reply

end Codel.Shell
