import Codel.Config.Setting
import Codel.Run.Counters

namespace Codel

/-- A family of series; a series has labels besides the host. -/
structure MetricFamily where
  name : String
  help : String
  kind : String
  series : List (List (String × String) × String)
deriving DecidableEq, Repr

/-- A count as a metric shows it. -/
def metricValue (n : Int) : String := Setting.realLiteral (Float.ofInt n)

/-- The families of counters, by increasing name. `started` is when the latest run began. -/
def Counters.families (c : Counters) (started : String) : List MetricFamily :=
  [{ name := "esolang_instruction_opcode_execution_number_total"
     help := "Instruction execution number statistics by opcode"
     kind := "counter"
     series := c.executed.map fun f => ([("opcode", f.1)], metricValue f.2) },
   { name := "esolang_program_executed_total"
     help := "The number of finished programs by terminal state"
     kind := "counter"
     series := c.finished.map fun f => ([("state", f.1)], metricValue f.2) },
   { name := "esolang_program_running"
     help := "The number of currently running programs"
     kind := "gauge"
     series := [([], metricValue c.running)] },
   { name := "esolang_program_steps_total"
     help := "The number of execution steps taken by all programs"
     kind := "counter"
     series := [([], metricValue c.steps)] },
   { name := "esolang_program_up_timestamp"
     help := "The millisecond timestamp when the latest program run started"
     kind := "gauge"
     series := [([], started)] }]

/-- One series of a family as a line. -/
def MetricFamily.line (m : MetricFamily) (host : String) (s : List (String × String) × String) :
    String :=
  let labels := (("host", host) :: s.1).map fun l => l.1 ++ "=\"" ++ l.2 ++ "\""
  m.name ++ "\x7b" ++ ",".intercalate labels ++ "\x7d " ++ s.2 ++ "\n"

/-- A family as text; nothing if it has no series. -/
def MetricFamily.text (m : MetricFamily) (host : String) : String :=
  if m.series = [] then ""
  else
    "# HELP " ++ m.name ++ " " ++ m.help ++ "\n# TYPE " ++ m.name ++ " " ++ m.kind ++ "\n" ++
      "".intercalate (m.series.map (m.line host))

def Counters.exposition (c : Counters) (host started : String) : String :=
  "".intercalate ((c.families started).map (·.text host))

end Codel
