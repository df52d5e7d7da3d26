import Codel.Grid.Block

namespace Codel

/-- The blocks found so far, and for every codel the number of its block. -/
structure BlockCache (g : Grid) where
  ids : Vector (Option Nat) g.size
  blocks : Array Block

namespace BlockCache

variable {g : Grid}

def empty (g : Grid) : BlockCache g := ⟨Vector.replicate _ none, #[]⟩

def size (c : BlockCache g) : Nat := c.blocks.size

/-- Notes that a position belongs to block `id`. -/
def mark (id : Nat) (ids : Vector (Option Nat) g.size) (p : Pos) : Vector (Option Nat) g.size :=
  match g.index? p with
  | some i => assign ids i (some id)
  | none => ids

/-- Adds a block for all of its codels. -/
def insert (c : BlockCache g) (b : Block) : BlockCache g :=
  match c with
  | ⟨ids, blocks⟩ => ⟨b.codels.foldl (mark blocks.size) ids, blocks.push b⟩

def get? (c : BlockCache g) (p : Pos) : Option Block := do
  let i ← g.index? p
  let id ← c.ids.get i
  c.blocks[id]?

/-- The block that holds a position, remembered or found and then remembered. -/
def find (c : BlockCache g) (p : Pos) : Block × BlockCache g :=
  match c.get? p with
  | some b => (b, c)
  | none =>
    let b := g.blockAt p
    if g.contains p then (b, c.insert b) else (b, c)

end BlockCache

/-- How blocks are found: anew each time, or through a cache. -/
inductive Locator (g : Grid) where
  | direct
  | cached (cache : BlockCache g)

namespace Locator

variable {g : Grid}

/-- A locator that has found nothing yet. -/
def start (g : Grid) (cached : Bool) : Locator g :=
  if cached then .cached (BlockCache.empty g) else .direct

def find : Locator g → Pos → Block × Locator g
  | direct, p => (g.blockAt p, direct)
  | cached c, p =>
    let (b, c') := c.find p
    (b, cached c')

def size : Locator g → Nat
  | direct => 0
  | cached c => c.size

end Locator

end Codel
