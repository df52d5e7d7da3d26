import Codel.Shell.Command
import Codel.Shell.Piet
import Codel.Tape.File
import Codel.Trace.Decoding
import Codel.Trace.Listing

namespace Codel.Shell

variable {m : Type → Type} [Monad m]

/-- The reply to a question for help on a topic. -/
def helpOn (topic : String) : Reply :=
  if topic = "" then Reply.ofText generalUsage
  else
    match Command.ofName? topic with
    | some c => Reply.ofText c.usage
    | none => { exit := 3, stderr := "No help topic for '" ++ topic ++ "'\n" }

/-- The reply to flags that cannot be used: the heading, the fault and the help. -/
def misuse (heading usage : String) (e : FlagFault) : Reply :=
  (Reply.ofText (heading ++ e.message ++ "\n\n" ++ usage)).fail e.message

/-- Runs a tape program from a file; `toTape` is how its text is read. -/
def runTapeFile (host : Host m) (path : String) (toTape : Bytes → Bytes) : m Reply := do
  match ← Tape.readProgram host.files path with
  | .error e => return Reply.ofError e.message
  | .ok text => return { stdout := ← host.finishTape (toTape text) (← host.input) }

def printTrace (host : Host m) (path : String) : m Reply := do
  match ← host.files.openPath path with
  | .error e => return Reply.ofError e.message
  | .ok entry =>
    match (Disk.content path entry).mapError (fun e => Trace.Failure.source e.message)
        >>= Trace.decode with
    | .error e => return Reply.ofError e.message
    | .ok t => return { stdout := t.listing }

/-- Carries out a command whose flags are in order. -/
def Command.perform (c : Command) (host : Host m) (level : Log.Level) (vs : Values)
    (args : List String) : m Reply :=
  match c with
  | piet => runPiet host level (PietOptions.ofValues vs)
  | brainfuck => runTapeFile host (vs.text "file") id
  | ook => runTapeFile host (vs.text "file") Ook.toTape
  | convert => do
    match ← Tape.convertFile host.files (vs.text "file") (vs.text "output") with
    | .error e => return Reply.ofError e.message
    | .ok () => return {}
  | trace => printTrace host (vs.text "file")
  | help => return helpOn (args.headD "")

/-- Reads the flags of a command and carries it out. Help comes before anything that is missing. -/
def Command.run (c : Command) (host : Host m) (environment : String → Option String)
    (level : Log.Level) (args : List String) : m Reply :=
  match readCommandLine c.flags environment args with
  | .error e => return misuse "Incorrect Usage: " c.usage e
  | .ok (vs, rest) =>
    if vs.isOn "help" then return Reply.ofText c.usage
    else
      match missing? c.flags vs with
      | some e => return (Reply.ofText c.usage).fail e.message
      | none => c.perform host level vs rest

/-- Starts the profile of a kind; the file is all that is left of it. -/
def startProfile (host : Host m) (kind : String) : m (Except String Unit) := do
  if kind = "" then return .ok ()
  else if kind = "cpu" ∨ kind = "mem" then
    let _ ← host.files.create (kind ++ ".pprof")
    return .ok ()
  else return .error ("Unknown profile kind " ++ quoted kind)

/-- Chooses the command that the first argument names. -/
def dispatch (host : Host m) (environment : String → Option String) (level : Log.Level) :
    List String → m Reply
  | [] => return Reply.ofText generalUsage
  | name :: args =>
    match Command.ofName? name with
    | some c => c.run host environment level args
    | none => return helpOn name

def run (host : Host m) (environment : String → Option String) (args : List String) : m Reply := do
  let level := (Log.Level.ofName? ((environment "LOG_LEVEL").getD "")).getD .info
  let reading := readFlags generalFlags [] args
  match twoForms? generalFlags reading.given, reading.fault with
  | some e, _ => return (Reply.ofText (e.message ++ "\n" ++ generalUsage)).fail e.message
  | none, some e => return misuse "Incorrect Usage. " generalUsage e
  | none, none =>
    let vs := valuesOf generalFlags reading.given []
    if vs.isOn "help" then return Reply.ofText generalUsage
    else
      match ← startProfile host (vs.text "profile") with
      | .error message => return Reply.ofError message
      | .ok () => dispatch host environment level reading.rest

end Codel.Shell
