import Codel.Machine.Basic
import Codel.Machine.OpCode

namespace Codel

inductive Executor where
  | noop
  | push
  | pop
  | arithmetic
  | not
  | pointer
  | switch
  | duplicate
  | roll
  | input
  | output
deriving DecidableEq, Repr

/-- What a binary operation leaves in place of its operands: none where the operation is no
arithmetic one, no value for a division by zero. -/
def arithmetic? (op : OpCode) (a b : Int64) : Option (List Int64) :=
  if op = OpCode.add then some [a + b]
  else if op = OpCode.subtract then some [a - b]
  else if op = OpCode.multiply then some [a * b]
  else if op = OpCode.divide then some (if b = 0 then [] else [a / b])
  else if op = OpCode.mod then some (if b = 0 then [] else [a % b])
  else if op = OpCode.greater then some [if b < a then 1 else 0]
  else none

namespace Executor

def ofName? : String → Option Executor
  | "noop" => some noop
  | "push" => some push
  | "pop" => some pop
  | "arithmetic" => some arithmetic
  | "not" => some not
  | "pointer" => some pointer
  | "switch" => some switch
  | "duplicate" => some duplicate
  | "roll" => some roll
  | "input" => some input
  | "output" => some output
  | _ => none

/-- The machine after two values were taken and replaced. -/
def binary (op : OpCode) (m : Machine) : Machine :=
  match m.stack.pop2? with
  | some (a, b, rest) =>
    match arithmetic? op a b with
    | some vs => { m with stack := vs.foldl Stack.push rest }
    | none => m
  | none => m

/-- The machine after `f` has used the top value. -/
def unary (m : Machine) (f : Machine → Int64 → Machine) : Machine :=
  match m.stack.pop? with
  | some (v, rest) => f { m with stack := rest } v
  | none => m

/-- Puts a value that was read on the stack. -/
def pushRead : Option Int64 × Machine → Machine
  | (some v, m) => { m with stack := m.stack.push v }
  | (none, m) => m

def read (op : OpCode) (m : Machine) : Machine :=
  if op = OpCode.inNumber then pushRead m.readNumber
  else if op = OpCode.inChar then pushRead m.readChar
  else m

/-- Takes the top value and writes it as the operation asks for. -/
def emit (op : OpCode) (m : Machine) : Machine × Option WriteFault :=
  match m.stack.pop? with
  | none => (m, none)
  | some (v, rest) =>
    let m := { m with stack := rest }
    if op = OpCode.outNumber then m.write .number v
    else if op = OpCode.outChar then m.write .char v
    else (m, none)

/-- Rotates the stack by the two values on top of it; a depth out of range drops both. -/
def rotate (m : Machine) : Machine :=
  match m.stack.pop2? with
  | some (depth, rolls, rest) => { m with stack := (rest.roll? depth rolls).getD rest }
  | none => m

/-- Executes an operation, `operand` being the size of the block that is left. -/
def run (e : Executor) (op : OpCode) (operand : Nat) (m : Machine) : Machine × Option WriteFault :=
  match e with
  | noop => (m, none)
  | push => ({ m with stack := m.stack.push (Int64.ofNat operand) }, none)
  | pop => (unary m fun m _ => m, none)
  | arithmetic => (binary op m, none)
  | not => (unary m fun m v => { m with stack := m.stack.push (if v = 0 then 1 else 0) }, none)
  | pointer => (unary m fun m v => { m with dp := m.dp.rotate (v % 4) }, none)
  | switch => (unary m fun m v => if v % 2 = 1 then { m with cc := m.cc.toggle } else m, none)
  | duplicate =>
    match m.stack.peek? with
    | some v => ({ m with stack := m.stack.push v }, none)
    | none => (m, none)
  | roll => (rotate m, none)
  | input => (read op m, none)
  | output => emit op m

end Executor

end Codel
