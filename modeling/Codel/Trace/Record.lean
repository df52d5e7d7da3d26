import Codel.Text.Bytes

namespace Codel.Trace

/-- What opens a trace. -/
structure Header where
  run : Bytes := []
  program : Bytes := []
  width : Int64 := 0
  height : Int64 := 0
  codelSize : Int64 := 0
deriving DecidableEq, Repr

/-- One executed step as seen after its operation. A stack may be missing altogether. -/
structure Step where
  step : Int64 := 0
  x : Int64 := 0
  y : Int64 := 0
  colour : Bytes := []
  op : Bytes := []
  blockSize : Int64 := 0
  dp : Bytes := []
  cc : Bytes := []
  stack : Option (List Int64) := none
deriving DecidableEq, Repr

end Codel.Trace

namespace Codel

/-- A recorded run. -/
structure Trace where
  header : Trace.Header
  steps : List Trace.Step
deriving DecidableEq, Repr

end Codel
