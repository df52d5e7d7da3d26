import Codel.Text.Integer
import Codel.Trace.Record

namespace Codel.Trace

/-- Why a value could not be read. -/
inductive ReadFault where
  | ended
  /-- The end in the midst of several bytes that belong together. -/
  | cut
  /-- A tag that does not start a value of the kind wanted. -/
  | invalid (tag : UInt8) (wanted : String)
  | notRecord (tag : UInt8)
  | unknown (tag : UInt8)
  | fieldCount
deriving DecidableEq, Repr

/-- A tag in hexadecimal without leading zeros. -/
def tagText (tag : UInt8) : String := String.ofList (Nat.toDigits 16 tag.toNat)

def ReadFault.message : ReadFault → String
  | ended => "EOF"
  | cut => "unexpected EOF"
  | invalid tag wanted => "msgpack: invalid code=" ++ tagText tag ++ " decoding " ++ wanted
  | notRecord tag => "msgpack: unexpected code=" ++ tagText tag ++ " decoding map length"
  | unknown tag => "msgpack: unknown code " ++ tagText tag
  | fieldCount => "msgpack: number of fields in array-encoded struct has changed"

/-- Reading a value off the front of a byte string. -/
def Reader (α : Type) : Type := Bytes → Except ReadFault (α × Bytes)

namespace Reader

variable {α β : Type}

def done (a : α) : Reader α := fun bs => .ok (a, bs)

def fail (e : ReadFault) : Reader α := fun _ => .error e

/-- Reads with `r`, then with what `f` makes of the result. -/
def andThen (r : Reader α) (f : α → Reader β) : Reader β := fun bs =>
  match r bs with
  | .ok (a, rest) => f a rest
  | .error e => .error e

instance : Monad Reader where
  pure := done
  bind := andThen

end Reader

def readTag : Reader UInt8
  | [] => .error .ended
  | b :: rest => .ok (b, rest)

/-- `n` bytes that belong together. -/
def readBytes (n : Nat) : Reader Bytes := fun bs =>
  let front := bs.take n
  if front.length = n then .ok (front, bs.drop n)
  else if bs = [] then .error .ended
  else .error .cut

/-- A number of `width` bytes. -/
def readNat (width : Nat) : Reader Nat := do
  let bs ← readBytes width
  return bs.toNatBig

/-- The number below `2 ^ 64` that two's complement in `bits` bits gives `n`. -/
def signed (bits n : Nat) : Int64 :=
  Int64.ofInt (if n < 1 <<< (bits - 1) then n else (n : Int) - (1 <<< bits : Nat))

/-- The integer that a tag begins. -/
def readIntAfter (tag : UInt8) : Reader Int64 :=
  if tag = 0xc0 then return 0
  else if tag < 0x80 ∨ 0xe0 ≤ tag then return signed 8 tag.toNat
  else if tag = 0xcc then return Int64.ofNat (← readNat 1)
  else if tag = 0xcd then return Int64.ofNat (← readNat 2)
  else if tag = 0xce then return Int64.ofNat (← readNat 4)
  else if tag = 0xd0 then return signed 8 (← readNat 1)
  else if tag = 0xd1 then return signed 16 (← readNat 2)
  else if tag = 0xd2 then return signed 32 (← readNat 4)
  else if tag = 0xcf ∨ tag = 0xd3 then return signed 64 (← readNat 8)
  else Reader.fail (.invalid tag "int64")

def readInt : Reader Int64 := do readIntAfter (← readTag)

/-- The length of the text that a tag begins; nothing counts as an empty text. -/
def readTextLength (tag : UInt8) : Reader Nat :=
  if tag = 0xc0 then return 0
  else if 0xa0 ≤ tag ∧ tag < 0xc0 then return tag.toNat - 0xa0
  else if tag = 0xd9 ∨ tag = 0xc4 then readNat 1
  else if tag = 0xda ∨ tag = 0xc5 then readNat 2
  else if tag = 0xdb ∨ tag = 0xc6 then readNat 4
  else Reader.fail (.invalid tag "string/bytes length")

def readText : Reader Bytes := do
  let tag ← readTag
  readBytes (← readTextLength tag)

/-- The length of the list that a tag begins; nothing counts as no list. -/
def readListLength (tag : UInt8) : Reader (Option Nat) :=
  if tag = 0xc0 then return none
  else if 0x90 ≤ tag ∧ tag < 0xa0 then return some (tag.toNat - 0x90)
  else if tag = 0xdc then return some (← readNat 2)
  else if tag = 0xdd then return some (← readNat 4)
  else Reader.fail (.invalid tag "array length")

/-- `n` integers, the ones read so far being held last first. -/
def readInts : (n : Nat) → (sofar : List Int64) → Reader (List Int64)
  | 0, sofar => Reader.done sofar.reverse
  | n + 1, sofar => do
    let v ← readInt
    readInts n (v :: sofar)

def readStack : Reader (Option (List Int64)) := do
  let tag ← readTag
  match ← readListLength tag with
  | none => return none
  | some n => return some (← readInts n [])

/-- The number of pairs of the map that a tag begins; nothing counts as no map. -/
def readMapLength (tag : UInt8) : Reader (Option Nat) :=
  if tag = 0xc0 then return none
  else if 0x80 ≤ tag ∧ tag < 0x90 then return some (tag.toNat - 0x80)
  else if tag = 0xde then return some (← readNat 2)
  else if tag = 0xdf then return some (← readNat 4)
  else Reader.fail (.notRecord tag)

/-- The number of bytes after the type byte of an extension value. -/
def readExtensionLength (tag : UInt8) : Reader Nat :=
  if tag = 0xd4 then return 1
  else if tag = 0xd5 then return 2
  else if tag = 0xd6 then return 4
  else if tag = 0xd7 then return 8
  else if tag = 0xd8 then return 16
  else if tag = 0xc7 then readNat 1
  else if tag = 0xc8 then readNat 2
  else readNat 4

/-- How many bytes to pass over after a tag, and how many values after those. -/
def readExtent (tag : UInt8) : Reader (Nat × Nat) :=
  if tag < 0x80 ∨ 0xe0 ≤ tag ∨ tag = 0xc0 ∨ tag = 0xc2 ∨ tag = 0xc3 then return (0, 0)
  else if tag = 0xcc ∨ tag = 0xd0 then return (1, 0)
  else if tag = 0xcd ∨ tag = 0xd1 then return (2, 0)
  else if tag = 0xce ∨ tag = 0xd2 ∨ tag = 0xca then return (4, 0)
  else if tag = 0xcf ∨ tag = 0xd3 ∨ tag = 0xcb then return (8, 0)
  else if tag < 0x90 ∨ tag = 0xde ∨ tag = 0xdf then
    return (0, 2 * (← readMapLength tag).getD 0)
  else if tag < 0xa0 ∨ tag = 0xdc ∨ tag = 0xdd then return (0, (← readListLength tag).getD 0)
  else if tag = 0xc1 then Reader.fail (.unknown tag)
  else if (0xd4 ≤ tag ∧ tag ≤ 0xd8) ∨ (0xc7 ≤ tag ∧ tag ≤ 0xc9) then
    return ((← readExtensionLength tag) + 1, 0)
  else return (← readTextLength tag, 0)

/-- Passes over `count` values of any kind. Every value takes at least its tag, so a byte string is
exhausted after as many values as it has bytes. -/
def skipValues : (fuel count : Nat) → Reader Unit
  | _, 0 => Reader.done ()
  | 0, _ + 1 => Reader.fail .ended
  | fuel + 1, count + 1 => do
    let (width, more) ← readExtent (← readTag)
    let _ ← readBytes width
    skipValues fuel (count + more)

def skipValue : Reader Unit := fun bs => skipValues bs.length 1 bs

/-- A record's fields: their names in order, and how each is read into the record. -/
structure Layout (α : Type) where
  fields : List (Bytes × (α → Reader α))

/-- Reads `n` pairs of a key and a value. -/
def readPairs {α : Type} (layout : Layout α) : (n : Nat) → α → Reader α
  | 0, a => Reader.done a
  | n + 1, a => do
    let key ← readText
    match layout.fields.find? fun f => f.1 = key with
    | some f => readPairs layout n (← f.2 a)
    | none =>
      skipValue
      readPairs layout n a

def readFields {α : Type} : List (Bytes × (α → Reader α)) → α → Reader α
  | [], a => Reader.done a
  | f :: fs, a => do readFields fs (← f.2 a)

/-- Reads the record that starts with a tag of a list, of which nothing is left but its fields. -/
def readListRecord {α : Type} (layout : Layout α) (zero : α) (tag : UInt8) : Reader α := fun bs =>
  match readListLength tag bs with
  | .error _ => .error (.notRecord tag)
  | .ok (n, rest) =>
    let n := n.getD 0
    if n = 0 then .ok (zero, rest)
    else if n ≠ layout.fields.length then .error .fieldCount
    else readFields layout.fields zero rest

/-- Reads a record whose fields are `zero` where nothing is said of them. -/
def readRecord {α : Type} (layout : Layout α) (zero : α) : Reader α := do
  let tag ← readTag
  if tag = 0xc0 ∨ (0x80 ≤ tag ∧ tag < 0x90) ∨ tag = 0xde ∨ tag = 0xdf then
    match ← readMapLength tag with
    | none => return zero
    | some n => readPairs layout n zero
  else readListRecord layout zero tag

def field {α β : Type} (name : String) (read : Reader β) (put : α → β → α) :
    Bytes × (α → Reader α) :=
  (Bytes.ofString name, fun a => do return put a (← read))

def headerLayout : Layout Header where
  fields := [
    field "run" readText fun h v => { h with run := v },
    field "program" readText fun h v => { h with program := v },
    field "width" readInt fun h v => { h with width := v },
    field "height" readInt fun h v => { h with height := v },
    field "codel_size" readInt fun h v => { h with codelSize := v }]

def stepLayout : Layout Step where
  fields := [
    field "step" readInt fun s v => { s with step := v },
    field "x" readInt fun s v => { s with x := v },
    field "y" readInt fun s v => { s with y := v },
    field "color" readText fun s v => { s with colour := v },
    field "opcode" readText fun s v => { s with op := v },
    field "block_size" readInt fun s v => { s with blockSize := v },
    field "dp" readText fun s v => { s with dp := v },
    field "cc" readText fun s v => { s with cc := v },
    field "stack" readStack fun s v => { s with stack := v }]

def readHeader : Reader Header := readRecord headerLayout {}

def readStep : Reader Step := readRecord stepLayout {}

/-- Where reading a trace failed, and why. -/
inductive Failure where
  | header (cause : ReadFault)
  /-- The source of the bytes failed before the header was read. -/
  | source (text : String)
  | step (n : Nat) (cause : ReadFault)
deriving DecidableEq, Repr

def Failure.message : Failure → String
  | header cause => "Header, " ++ cause.message ++ ": Trace decode"
  | source text => "Header, " ++ text ++ ": Trace decode"
  | step n cause => "Step " ++ decimalText n ++ ", " ++ cause.message ++ ": Trace decode"

/-- Reads steps until the input ends, dropping a step that it ends within; `sofar` holds those read before, last first. Every step takes
at least one byte, so `fuel` steps empty an input of that many bytes. -/
def readSteps : (fuel : Nat) → (sofar : List Step) → Bytes → Except Failure (List Step)
  | 0, sofar, _ => .ok sofar.reverse
  | fuel + 1, sofar, bs =>
    match readStep bs with
    | .ok (s, rest) => readSteps fuel (s :: sofar) rest
    | .error .ended => .ok sofar.reverse
    | .error e => .error (.step (sofar.length + 1) e)

end Codel.Trace

namespace Codel

def Trace.decode (bs : Bytes) : Except Trace.Failure Trace :=
  match Trace.readHeader bs with
  | .error e => .error (.header e)
  | .ok (h, rest) => (Trace.readSteps (rest.length + 1) [] rest).map fun steps => ⟨h, steps⟩

end Codel
