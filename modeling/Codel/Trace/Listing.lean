import Codel.Text.Integer
import Codel.Trace.Record

namespace Codel

/-- The bytes of an integer's decimal form. -/
def wordBytes (n : Int64) : Bytes := Bytes.ofString (wordText n)

def Trace.Header.line (h : Trace.Header) : Bytes :=
  Bytes.ofString "Run " ++ h.run ++ Bytes.ofString ": " ++ h.program ++ Bytes.ofString " " ++
    wordBytes h.width ++ Bytes.ofString "x" ++ wordBytes h.height ++
    Bytes.ofString " codel size " ++ wordBytes h.codelSize ++ Bytes.ofString "\n"

def Trace.Step.line (s : Trace.Step) : Bytes :=
  Bytes.ofString ("Step " ++ wordText s.step ++ ": Pos(" ++ wordText s.x ++ "," ++ wordText s.y ++
    ") Color:") ++ s.colour ++ Bytes.ofString " Op:" ++ s.op ++ Bytes.ofString " Block:" ++
    wordBytes s.blockSize ++ Bytes.ofString " DP:" ++ s.dp ++ Bytes.ofString " CC:" ++ s.cc ++
    Bytes.ofString (" Stack:[" ++ " ".intercalate ((s.stack.getD []).map wordText) ++ "]\n")

def Trace.listing (t : Trace) : Bytes := t.header.line ++ t.steps.flatMap Trace.Step.line

end Codel
