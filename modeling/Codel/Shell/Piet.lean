import Codel.Config.File
import Codel.Image.File
import Codel.Run.Exposition
import Codel.Run.Report
import Codel.Shell.Flag
import Codel.Shell.Host

namespace Codel.Shell

/-- What a run from the command line is asked for. -/
structure PietOptions where
  file : String
  /-- The configuration file, empty if there is none. -/
  config : String := ""
  codelSize : Option Int64 := none
  debug : Option Bool := none
  maxSteps : Option Int64 := none
  /-- The file for the trace, empty if there is none. -/
  trace : String := ""
  metrics : Bool := false
deriving DecidableEq, Repr

def PietOptions.ofValues (vs : Values) : PietOptions where
  file := vs.text "file"
  config := vs.text "config"
  codelSize := vs.number? "codel-size"
  debug := vs.switch? "debug"
  maxSteps := vs.number? "max-steps"
  trace := vs.text "trace"
  metrics := vs.isOn "metrics"

/-- A configuration with what was asked for put over it. -/
def PietOptions.over (o : PietOptions) (c : Config) : Config :=
  { c with
    codelSize := o.codelSize.getD c.codelSize
    debug := o.debug.getD c.debug
    maxSteps := o.maxSteps.getD c.maxSteps }

/-- Notes as they stand on the standard error. -/
def notesText (level : Log.Level) (stamp : String) (notes : List Note) : String :=
  "".intercalate (notes.map fun
    | .entry e => if level.keeps e.level then e.render stamp else ""
    | .line text => text)

variable {m : Type → Type} [Monad m]

/-- The configuration and the log level after the configuration file, if there is one, was read. -/
def loadConfig (host : Host m) (path : String) (level : Log.Level) :
    m (Except ConfigFault (Config × Log.Level)) := do
  if path = "" then return .ok ({}, level)
  else
    let (c, checked) := Config.ofFile path (← host.files.read path)
    return checked.map fun _ => (c, c.appliedLevel level)

/-- The sink for a trace whose file exists already; it refuses everything if the file does not take
the header. -/
def openTrace (host : Host m) (path : String) (header : Bytes) : m (Option Sink) := do
  if path = "" then return none
  else
    match ← host.files.append path header with
    | .ok () => return some {}
    | .error e => return some (Sink.failing e.message)

/-- Writes what a trace holds after its header. -/
def closeTrace (host : Host m) (path : String) (header : Bytes) (sink : Option Sink) :
    m (Except FileError Unit) :=
  match sink with
  | none => return .ok ()
  | some sink => host.files.append path (sink.bytes.drop header.length)

/-- Runs a program that is loaded; `shown` is what loading it has put on the standard error. -/
def runProgram (host : Host m) (o : PietOptions) (c : Config) (level : Log.Level) (p : Program)
    (stamp shown : String) : m Reply := do
  let plain : Setup := {
    program := p
    run := ← host.freshRun
    stepLimit := c.maxSteps.toInt.toNat
    input := ← host.input }
  let started ← host.milliseconds
  let header := plain.header.encode
  let setup := { plain with trace := ← openTrace host o.trace header }
  let outcome := setup.execute
  let closed ← closeTrace host o.trace header outcome.trace
  let reply : Reply := {
    stdout := outcome.state.machine.output.bytes ++ Bytes.ofString "\n"
    stderr := shown ++ notesText level stamp (setup.notes c.debug outcome) }
  match outcome.error, closed with
  | some e, _ => return reply.fail e.message
  | none, .error e => return reply.fail e.message
  | none, .ok () =>
    if o.metrics then return reply.note (outcome.counters.exposition (← host.name) started)
    else return reply

def loadAndRun (host : Host m) (o : PietOptions) (c : Config) (level : Log.Level) : m Reply := do
  match Raster.load o.file (← host.files.openPath o.file) with
  | .error e => return Reply.ofError e.message
  | .ok (format, r) =>
    let stamp ← host.stamp
    let shown := notesText level stamp [.entry (loadEntry o.file format r)]
    match Program.ofPicture o.file r c.codelSize with
    | .error e => return Reply.fail { stderr := shown } e.message
    | .ok p => runProgram host o c level p stamp shown

/-- The whole command. The trace file is made before the picture is looked at. -/
def runPiet (host : Host m) (level : Log.Level) (o : PietOptions) : m Reply := do
  match ← loadConfig host o.config level with
  | .error e => return Reply.ofError e.message
  | .ok (c, level) =>
    let c := o.over c
    match c.validate with
    | .error e => return Reply.ofError e.message
    | .ok () =>
      match ← (if o.trace = "" then return .ok () else host.files.create o.trace) with
      | .error e => return Reply.ofError e.message
      | .ok () => loadAndRun host o c level

end Codel.Shell
