import Codel.Files.Access
import Codel.Tape.Ook

namespace Codel.Tape

inductive FileProblem where
  | missing (path : String)
  | unread (path : String) (cause : FileError)
  | noDirectory (path : String) (cause : FileError)
  | unwritten (path : String) (cause : FileError)
deriving DecidableEq, Repr

def FileProblem.message : FileProblem → String
  | missing path => path ++ ": Program file not found"
  | unread path cause => "Read " ++ path ++ ": " ++ cause.message
  | noDirectory path cause => "Create directory for " ++ path ++ ": " ++ cause.message
  | unwritten path cause => "Write " ++ path ++ ": " ++ cause.message

variable {m : Type → Type} [Monad m]

/-- Reads the text of a program. A file that does not exist is told from one that cannot be read. -/
def readProgram (files : FileAccess m) (path : String) : m (Except FileProblem Bytes) := do
  match ← files.read path with
  | .ok bs => return .ok bs
  | .error e =>
    return .error (if e.fault = .notFound then .missing path else .unread path e)

/-- Writes the Ook! text of the tape program at `source` to `target`, whose directory is made if
needed. -/
def convertFile (files : FileAccess m) (source target : String) : m (Except FileProblem Unit) := do
  match ← readProgram files source with
  | .error e => return .error e
  | .ok bs =>
    match ← files.makeDirs (dirPath target) with
    | .error e => return .error (.noDirectory target e)
    | .ok () =>
      match ← files.write target (Ook.ofTape bs) with
      | .error e => return .error (.unwritten target e)
      | .ok () => return .ok ()

end Codel.Tape
