import Codel.Machine.Executor

namespace Codel

/-- The executors of operations, each operation at most once. They are only kept and handed out, so
executors may be of any kind. -/
structure HandlerTable (ε : Type) where
  handlers : List (OpCode × ε)
deriving DecidableEq, Repr

abbrev InstructionSet := HandlerTable Executor

/-- The seventeen operations and their usual executors. -/
def InstructionSet.defaults : List (OpCode × Executor) :=
  [(OpCode.push, .push), (OpCode.pop, .pop), (OpCode.add, .arithmetic),
    (OpCode.subtract, .arithmetic), (OpCode.multiply, .arithmetic), (OpCode.divide, .arithmetic),
    (OpCode.mod, .arithmetic), (OpCode.greater, .arithmetic), (OpCode.not, .not),
    (OpCode.pointer, .pointer), (OpCode.switch, .switch), (OpCode.duplicate, .duplicate),
    (OpCode.roll, .roll), (OpCode.inNumber, .input), (OpCode.inChar, .input),
    (OpCode.outNumber, .output), (OpCode.outChar, .output)]

namespace HandlerTable

variable {ε : Type}

/-- The table with the usual executors, `usual` being what stands for them among those of a table. -/
def standard (usual : Executor → ε) : HandlerTable ε :=
  ⟨InstructionSet.defaults.map fun h => (h.1, usual h.2)⟩

def get? (s : HandlerTable ε) (op : OpCode) : Option ε :=
  (s.handlers.find? fun h => h.1 = op).map Prod.snd

def contains (s : HandlerTable ε) (op : OpCode) : Bool := (s.get? op).isSome

/-- The executor of an operation, `idle` if it has none. -/
def getD (s : HandlerTable ε) (op : OpCode) (idle : ε) : ε := (s.get? op).getD idle

/-- Adds an executor; none if the operation has one already. -/
def register? (s : HandlerTable ε) (op : OpCode) (e : ε) : Option (HandlerTable ε) :=
  if s.contains op then none else some ⟨s.handlers ++ [(op, e)]⟩

/-- Removes the executor of an operation, if it has one. -/
def unregister (s : HandlerTable ε) (op : OpCode) : HandlerTable ε :=
  ⟨s.handlers.filter fun h => h.1 ≠ op⟩

def clearDefaults (s : HandlerTable ε) : HandlerTable ε :=
  InstructionSet.defaults.foldl (fun s h => s.unregister h.1) s

/-- The names of the operations in increasing byte order, which for UTF-8 is the order of code
points, separated by commas. -/
def names (s : HandlerTable ε) : String :=
  ",".intercalate ((s.handlers.map fun h => h.1.name).mergeSort fun a b => a ≤ b)

end HandlerTable

namespace InstructionSet

def standard : InstructionSet := HandlerTable.standard id

def executor (s : InstructionSet) (op : OpCode) : Executor := s.getD op .noop

/-- The message when an operation has an executor already. -/
def duplicateMessage (op : OpCode) : String :=
  "Instruction handler " ++ op.label ++ " is already exist"

end InstructionSet

end Codel
