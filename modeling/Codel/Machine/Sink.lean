import Codel.Text.Bytes

namespace Codel

/-- What became of the writes tried so far. -/
structure Tally where
  tried : Nat := 0
  refused : Nat := 0
  /-- The number of bytes in the writes that were taken. -/
  bytes : Nat := 0
deriving DecidableEq, Repr

def Tally.count (t : Tally) (bs : Bytes) (taken : Bool) : Tally where
  tried := t.tried + 1
  refused := if taken then t.refused else t.refused + 1
  bytes := if taken then t.bytes + bs.length else t.bytes

/-- A destination for writes, each of which it takes whole or refuses. -/
structure Sink where
  /-- Whether a write is taken. -/
  admits : Tally → Bytes → Bool := fun _ _ => true
  /-- The text of the failure when a write is refused. -/
  cause : String := "closed"
  tally : Tally := {}
  /-- The writes that were taken, the latest first. -/
  taken : List Bytes := []

namespace Sink

/-- A sink that takes a write while the total stays within `n` bytes. -/
def limited (n : Nat) : Sink := { admits := fun t bs => t.bytes + bs.length ≤ n }

/-- A sink that takes writes until one would go beyond `n` bytes, and none from then on. -/
def closing (n : Nat) : Sink :=
  { admits := fun t bs => t.refused = 0 && t.bytes + bs.length ≤ n }

/-- A sink that takes nothing, for the given reason. -/
def failing (cause : String) : Sink := { admits := fun _ _ => false, cause := cause }

/-- A sink with room for `n` bytes, or for any number. -/
def ofLimit? : Option Nat → Sink
  | some n => limited n
  | none => {}

/-- Whether a write would be taken now. -/
def takes (s : Sink) (bs : Bytes) : Bool := s.admits s.tally bs

def write (s : Sink) (bs : Bytes) : Sink :=
  { s with
    tally := s.tally.count bs (s.takes bs)
    taken := if s.takes bs then bs :: s.taken else s.taken }

def bytes (s : Sink) : Bytes := s.taken.reverse.flatten

end Sink

end Codel
