import Codel.Files.Path
import Codel.Text.Bytes

namespace Codel

inductive FileFault where
  | notFound
  | notDirectory
  | isDirectory
  | noSpace
  | invalidArgument
  | nameTooLong
  | other (text : String)
deriving DecidableEq, Repr

def FileFault.text : FileFault → String
  | notFound => "no such file or directory"
  | notDirectory => "not a directory"
  | isDirectory => "is a directory"
  | noSpace => "no space left on device"
  | invalidArgument => "invalid argument"
  | nameTooLong => "file name too long"
  | other text => text

/-- A failed operation on a path. -/
structure FileError where
  action : String
  path : String
  fault : FileFault
deriving DecidableEq, Repr

def FileError.message (e : FileError) : String := e.action ++ " " ++ e.path ++ ": " ++ e.fault.text

/-- What a path leads to. -/
inductive Entry where
  | file (content : Bytes)
  | directory
  /-- A device that is always empty and takes every write. -/
  | null
  /-- A device of zeros that takes no write. -/
  | full
deriving DecidableEq, Repr

/-- A file tree. Entries are kept under their components from the root, the latest first; the root
and the working directory always exist. -/
structure Disk where
  home : List String := ["home"]
  entries : List (List String × Entry) := []

namespace Disk

/-- A tree with an empty working directory and the devices. -/
def fresh : Disk :=
  { entries := [(["home"], .directory), (["dev"], .directory), (["dev", "null"], .null),
      (["dev", "full"], .full)] }

def entry? (d : Disk) (parts : List String) : Option Entry :=
  if parts = [] then some .directory
  else (d.entries.find? fun e => e.1 = parts).map Prod.snd

def put (d : Disk) (parts : List String) (e : Entry) : Disk :=
  { d with entries := (parts, e) :: d.entries.filter fun e => e.1 ≠ parts }

/-- Follows components from a directory to the place they name. The last component may be missing;
the others have to be directories. -/
def walk (d : Disk) : (here : List String) → List String → Except FileFault (List String)
  | here, [] => .ok here
  | here, p :: ps =>
    match d.entry? here with
    | none => .error .notFound
    | some .directory =>
      if 255 < p.utf8ByteSize then .error .nameTooLong
      else if p = "." then walk d here ps
      else if p = ".." then walk d here.dropLast ps
      else walk d (here ++ [p]) ps
    | some _ => .error .notDirectory

/-- The number of bytes from which on a path is too long. -/
def pathLimit : Nat := 4096

/-- The place a path names. -/
def locate (d : Disk) (path : String) : Except FileFault (List String) :=
  if path = "" then .error .notFound
  else if path.toList.contains (Char.ofNat 0) then .error .invalidArgument
  else if pathLimit ≤ path.utf8ByteSize then .error .nameTooLong
  else d.walk (if isRooted path then [] else d.home) (pathParts path)

/-- What a path leads to. -/
def lookup (d : Disk) (path : String) : Except FileFault Entry :=
  match d.locate path with
  | .error e => .error e
  | .ok parts =>
    match d.entry? parts with
    | none => .error .notFound
    | some .directory => .ok .directory
    | some e => if endsInSlash path then .error .notDirectory else .ok e

/-- Opens a path for reading; a directory can be opened too. -/
def openPath (d : Disk) (path : String) : Except FileError Entry :=
  match d.lookup path with
  | .ok e => .ok e
  | .error e => .error ⟨"open", path, e⟩

/-- The content of what was opened under a path. -/
def content (path : String) : Entry → Except FileError Bytes
  | .file bs => .ok bs
  | .directory => .error ⟨"read", path, .isDirectory⟩
  | .null => .ok []
  | .full => .ok []

def read (d : Disk) (path : String) : Except FileError Bytes := d.openPath path >>= content path

/-- Makes an empty file, emptying one that exists. -/
def create (d : Disk) (path : String) : Except FileError Disk :=
  match d.locate path with
  | .error e => .error ⟨"open", path, e⟩
  | .ok parts =>
    if d.entry? parts.dropLast ≠ some .directory then .error ⟨"open", path, .notFound⟩
    else if endsInSlash path then .error ⟨"open", path, .isDirectory⟩
    else
      match d.entry? parts with
      | some .directory => .error ⟨"open", path, .isDirectory⟩
      | some (.file _) => .ok (d.put parts (.file []))
      | some _ => .ok d
      | none => .ok (d.put parts (.file []))

def append (d : Disk) (path : String) (bs : Bytes) : Except FileError Disk :=
  match d.locate path with
  | .error e => .error ⟨"write", path, e⟩
  | .ok parts =>
    match d.entry? parts with
    | some (.file old) => .ok (d.put parts (.file (old ++ bs)))
    | some .full => .error ⟨"write", path, .noSpace⟩
    | _ => .ok d

/-- Replaces the content of a file, making the file if needed. -/
def write (d : Disk) (path : String) (bs : Bytes) : Except FileError Disk :=
  d.create path >>= fun d => d.append path bs

/-- Makes the directories of a list that do not exist. -/
def makeEach (d : Disk) : List String → Except FileError Disk
  | [] => .ok d
  | p :: ps =>
    match d.lookup p with
    | .ok .directory => d.makeEach ps
    | .ok _ => .error ⟨"mkdir", p, .notDirectory⟩
    | .error _ =>
      match d.locate p with
      | .error e => .error ⟨"mkdir", p, e⟩
      | .ok parts => (d.put parts .directory).makeEach ps

/-- Makes a directory and those on the way to it. -/
def makeDirs (d : Disk) (path : String) : Except FileError Disk := d.makeEach (pathsTo path)

/-- Adds a file or a directory, with the directories on the way to it. -/
def place (d : Disk) (name : String) (e : Entry) : Disk :=
  let parts := (foldParts true [] (d.home ++ pathParts name)).reverse
  let d := (List.range parts.length).foldl (fun d n =>
    if (d.entry? (parts.take n)).isNone then d.put (parts.take n) .directory else d) d
  d.put parts e

/-- The files under the working directory with their paths. -/
def files (d : Disk) : List (String × Bytes) :=
  d.entries.filterMap fun e =>
    match e.2 with
    | .file bs =>
      if d.home.isPrefixOf e.1 then some ("/".intercalate (e.1.drop d.home.length), bs) else none
    | _ => none

end Disk

end Codel
