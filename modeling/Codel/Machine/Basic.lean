import Codel.Grid.Pos
import Codel.Machine.Sink
import Codel.Machine.Stack
import Codel.Text.Blank

namespace Codel

/-- What the operations of a program act on. -/
structure Machine where
  stack : Stack := {}
  dp : Direction := Direction.right
  cc : Chooser := Chooser.left
  input : Bytes := []
  output : Sink := {}
  /-- Where reading a number is announced, if it is. -/
  prompt : Option Sink := none

/-- Splits a byte string after its first newline, or at its end. -/
def takeLine : Bytes → Bytes × Bytes
  | [] => ([], [])
  | b :: rest =>
    if b = 10 then ([b], rest)
    else
      let (line, rest') := takeLine rest
      (b :: line, rest')

/-- The number a line holds between white space. -/
def lineNumber? (line : Bytes) : Option Int64 :=
  match Piece.chars? (trimBlank (pieces line)) with
  | some cs => readDecimal? cs
  | none => none

/-- Which form a value is written in. -/
inductive Form where
  | number
  | char
deriving DecidableEq, Repr

/-- The bytes of a value written as a number, or as a character: printable ASCII as it is, anything
else as its number in brackets. -/
def Form.bytes : Form → Int64 → Bytes
  | number, n => Bytes.ofChars (decimal n.toInt)
  | char, n =>
    if 32 ≤ n ∧ n ≤ 126 then [n.toInt.toNat.toUInt8]
    else Bytes.ofChars ('[' :: decimal n.toInt ++ [']'])

def Form.name : Form → String
  | number => "number"
  | char => "char"

structure WriteFault where
  form : Form
  value : Int64
  cause : String
deriving DecidableEq, Repr

def WriteFault.message (f : WriteFault) : String :=
  "Write " ++ f.form.name ++ " " ++ wordText f.value ++ ": " ++ f.cause

namespace Machine

def announce (m : Machine) : Machine :=
  { m with prompt := m.prompt.map fun s => s.write (Bytes.ofString "Enter number: ") }

/-- Reads one line as a number; the line is used up whatever it holds. -/
def readNumber (m : Machine) : Option Int64 × Machine :=
  let m := m.announce
  let (line, rest) := takeLine m.input
  (lineNumber? line, { m with input := rest })

def readChar (m : Machine) : Option Int64 × Machine :=
  match nextPiece? m.input with
  | some (p, rest) => (some (Int64.ofNat p.toChar.toNat), { m with input := rest })
  | none => (none, m)

/-- Writes a value in one of the two forms. -/
def write (m : Machine) (form : Form) (v : Int64) : Machine × Option WriteFault :=
  let bs := form.bytes v
  ({ m with output := m.output.write bs },
    if m.output.takes bs then none else some ⟨form, v, m.output.cause⟩)

end Machine

end Codel
