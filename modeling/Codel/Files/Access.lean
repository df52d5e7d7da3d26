import Codel.Files.Disk

namespace Codel

/-- The operations on files, in the order of their effects: on a file tree that is a value, or on the
machine's own. -/
structure FileAccess (m : Type → Type) where
  openPath : String → m (Except FileError Entry)
  create : String → m (Except FileError Unit)
  append : String → Bytes → m (Except FileError Unit)
  makeDirs : String → m (Except FileError Unit)

namespace FileAccess

variable {m : Type → Type} [Monad m]

def read (files : FileAccess m) (path : String) : m (Except FileError Bytes) :=
  return (← files.openPath path) >>= Disk.content path

/-- Replaces the content of a file, making the file if needed. -/
def write (files : FileAccess m) (path : String) (bs : Bytes) : m (Except FileError Unit) := do
  match ← files.create path with
  | .error e => return .error e
  | .ok () => files.append path bs

end FileAccess

/-- An operation that changes a tree, or leaves it as it is if it fails. -/
def Disk.change (f : Disk → Except FileError Disk) : StateM Disk (Except FileError Unit) := fun d =>
  match f d with
  | .ok d => (.ok (), d)
  | .error e => (.error e, d)

def Disk.access : FileAccess (StateM Disk) where
  openPath p := fun d => (d.openPath p, d)
  create p := Disk.change (·.create p)
  append p bs := Disk.change (·.append p bs)
  makeDirs p := Disk.change (·.makeDirs p)

end Codel
