import Codel.Toml.Store
import Codel.Toml.Syntax

namespace Codel.Toml

/-- A document being put together. -/
structure Draft where
  store : Store := {}
  /-- The table that keys are put into. -/
  context : List String := []
  /-- Paths that were only passed through. -/
  implicit : List (List String) := []
  /-- Paths that hold an array. -/
  arrays : List (List String) := []

namespace Draft

/-- Marks a path as only passed through. -/
def pass (d : Draft) (path : List String) : Draft := { d with implicit := path :: d.implicit }

/-- Takes the mark off a path. -/
def settle (d : Draft) (path : List String) : Draft :=
  { d with implicit := d.implicit.filter (· ≠ path) }

def put (d : Draft) (id : Nat) (key : String) (v : Node) : Draft :=
  { d with store := d.store.put id key v }

def fresh (d : Draft) : Nat × Draft :=
  let (t, store) := d.store.fresh
  (t, { d with store := store })

/-- Gives a key of the current table a value. A path that was only passed through may be given once
more; what stands there is kept then, unless it is an array. -/
def give (d : Draft) (key : String) (v : Node) : Option Draft :=
  match d.store.tableAt? d.context with
  | none => none
  | some id =>
    let path := d.context ++ [key]
    if (d.store.find? id key).isNone then some (d.put id key v)
    else if d.implicit.contains path then
      some ((if d.arrays.contains path then d.put id key v else d).settle path)
    else none

/-- Notes whether a key of the current table holds an array. The empty key stands for the table
itself. -/
def note (d : Draft) (key : String) (isArray : Bool) : Draft :=
  let path := if key ≠ "" then d.context ++ [key] else if d.context = [] then [""] else d.context
  { d with arrays := if isArray then path :: d.arrays else d.arrays.filter (· ≠ path) }

/-- Passes along a path from the table `here`, whose own path is `done`, making the tables that are
missing, to the table at its end. -/
def passAlong (d : Draft) (here : Nat) : (done : List String) → List String → Option (Nat × Draft)
  | _, [] => some (here, d)
  | done, k :: ks =>
    if (d.store.find? here k).isNone then
      let (t, d) := (d.pass (done ++ [k])).fresh
      (d.put here k (.table t)).passAlong t (done ++ [k]) ks
    else
      match d.store.child? here k with
      | some t => d.passAlong t (done ++ [k]) ks
      | none => none

/-- Adds a table to the list of tables under a key of a table. -/
def addTable (d : Draft) (here : Nat) (key : String) : Option Draft :=
  let (t, d) := d.fresh
  match d.store.find? here key with
  | none => some (d.put here key (.tables [t]))
  | some (.tables ts) => some (d.put here key (.tables (t :: ts)))
  | some _ => none

/-- Opens a table for keys to be put into: a new one of a list of tables, or the one under the
path. -/
def enter (d : Draft) (path : List String) (inList : Bool) : Option Draft := do
  let parents := path.dropLast
  let key := path.getLastD ""
  let (here, d) ← d.passAlong 0 [] parents
  let d ← if inList then d.addTable here key
    else
      let (t, d) := d.fresh
      Draft.give { d with context := parents } key (.table t)
  return { d with context := path }

/-- Enters tables one below the other, each only passed through. -/
def descend (d : Draft) : List String → Option Draft
  | [] => some d
  | k :: ks => do
    let path := d.context ++ [k]
    let d ← (d.pass path).enter path false
    d.descend ks

def isArray : Literal → Bool
  | .array _ => true
  | _ => false

mutual

/-- The node of a literal that stands under a key. The tables in it are entered on the way, an
element of a list as a new table of that list. -/
def value (d : Draft) (key : String) (inList : Bool) : Literal → Option (Node × Draft)
  | .single v => some (.single v, d)
  | .array xs => (elements (d.note key true) key xs).map fun (vs, d) => (.list vs, d)
  | .inline ps => do
    let path := d.context ++ [key]
    let inner ← (d.pass path).enter path inList
    let (own, inner) := inner.fresh
    let inner ← pairs inner own ps
    some (.table own, { inner with context := d.context })

/-- The nodes of an array's elements. -/
def elements (d : Draft) (key : String) : List Literal → Option (List Node × Draft)
  | [] => some ([], d)
  | x :: xs => do
    let (v, d) ← value d key true x
    let (vs, d) ← elements d key xs
    some (v :: vs, d)

/-- The entries of a table in braces, put into the current table and into the table `own`. -/
def pairs (d : Draft) (own : Nat) : List (List String × Literal) → Option Draft
  | [] => some d
  | p :: ps => do
    let (v, next) ← pair d p
    let store ← next.store.putAlong own v p.1
    pairs { next with store := store } own ps

/-- Puts one pair into the current table. -/
def pair (d : Draft) : List String × Literal → Option (Node × Draft)
  | (path, x) => do
    let key := path.getLastD ""
    let below ← d.descend path.dropLast
    let (v, below) ← value below key false x
    let below ← below.give key v
    some (v, { below.note key (isArray x) with context := d.context })

end

def apply (d : Draft) : Statement → Option Draft
  | .table path => (d.enter path false).map (·.note "" false)
  | .tables path => (d.enter path true).map (·.note "" false)
  | .pair path x => (d.pair (path, x)).map Prod.snd

end Draft

/-- The table that a document describes; none if it is not well formed or gives a key too often. -/
def decode? (bs : Bytes) : Option Fields := do
  let ss ← statements? bs
  let d ← ss.foldlM Draft.apply {}
  let depth := d.store.tables.size + bs.length
  return (d.store.entries 0).map fun e => (e.1, d.store.resolve depth e.2)

end Codel.Toml
