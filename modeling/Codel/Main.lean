import Codel.Shell.Basic
import Codel.Tape.Machine
import Std.Time

namespace Codel.Shell

/-- The fault that a text of the system describes, its first letter in either case. -/
def faultOfText (text : String) : FileFault :=
  let text := text.decapitalize
  if text = "is a directory" then .isDirectory
  else if text = "not a directory" then .notDirectory
  else .other text

/-- The fault behind an error of the system. -/
def faultOf : IO.Error → FileFault
  | .noFileOrDirectory _ _ _ => .notFound
  | .inappropriateType _ _ text => faultOfText text
  | .resourceExhausted _ _ text => faultOfText text
  | .permissionDenied _ _ text => faultOfText text
  | .invalidArgument _ _ text => faultOfText text
  | .otherError _ text => faultOfText text
  | e => .other e.toString

/-- Does something with a file. -/
def attempt {α : Type} (action path : String) (act : IO α) : IO (Except FileError α) := do
  try
    return .ok (← act)
  catch e =>
    return .error ⟨action, path, faultOf e⟩

/-- Opens what a path leads to. -/
def openReal (path : String) : IO (Except FileError Entry) := do
  match ← attempt "open" path (IO.FS.readBinFile path) with
  | .ok bs => return .ok (.file bs.toList)
  | .error e => return if e.fault = .isDirectory then .ok .directory else .error e

/-- Makes the directories of a list that do not exist. -/
def makeReal : List String → IO (Except FileError Unit)
  | [] => return .ok ()
  | p :: ps => do
    match ← openReal p with
    | .ok .directory => makeReal ps
    | .ok _ => return .error ⟨"mkdir", p, .notDirectory⟩
    | .error _ =>
      match ← attempt "mkdir" p (IO.FS.createDir p) with
      | .ok () => makeReal ps
      | .error e => return .error e

def realFiles : FileAccess IO where
  openPath := openReal
  create path := attempt "open" path (do let _ ← IO.FS.Handle.mk path .write)
  append path bs := attempt "write" path do
    let h ← IO.FS.Handle.mk path .append
    h.write ⟨bs.toArray⟩
    h.flush
  makeDirs path := makeReal (pathsTo path)

partial def readAll (stream : IO.FS.Stream) (sofar : ByteArray) : IO Bytes := do
  let chunk ← stream.read 4096
  if chunk.isEmpty then return sofar.toList else readAll stream (sofar ++ chunk)

/-- Runs a tape program to its end, which it may not have. -/
partial def finishTape (code : Array UInt8) (s : Tape.State) : IO Bytes :=
  if s.isDone code then return s.output else finishTape code (s.run code 1000000)

def randomRun : IO RunId := do
  return RunId.ofSeed (Bytes.toNatBig (← IO.getRandomBytes 16).toList)

def machineName : IO String := do
  match ← IO.getEnv "HOSTNAME" with
  | some name => return name
  | none =>
    try
      return (← IO.FS.readFile "/etc/hostname").trimAscii.toString
    catch _ => return ""

/-- The time as it stands in log lines. -/
def realStamp : IO String := do
  let now := Std.Time.DateTime.ofTimestamp (← Std.Time.Timestamp.now) Std.Time.TimeZone.ZoneRules.UTC
  return quoted (now.format "uuuu-MM-dd'T'HH:mm:ss'Z'")

/-- The milliseconds of the clock as a metric shows them. -/
def realMilliseconds : IO String := do
  let now ← Std.Time.Timestamp.now
  return metricValue now.toMillisecondsSinceUnixEpoch.val

def realHost : Host IO where
  files := realFiles
  input := do readAll (← IO.getStdin) .empty
  finishTape code input := finishTape code.toArray (Tape.State.start input)
  freshRun := randomRun
  stamp := realStamp
  name := machineName
  milliseconds := realMilliseconds

end Codel.Shell

open Codel Codel.Shell in
/-- Carries out the command line and shows its reply. -/
def main (args : List String) : IO UInt32 := do
  let set ← variableNames.filterMapM fun name => do
    return (← IO.getEnv name).map fun value => (name, value)
  let reply ← run realHost (fun name => set.lookup name) args
  let out ← IO.getStdout
  out.write ⟨reply.stdout.toArray⟩
  out.flush
  let err ← IO.getStderr
  err.putStr reply.stderr
  err.flush
  return reply.exit.toUInt32
