import Codel.Config.Setting

namespace Codel.Toml

/-- What stands under a key. -/
inductive Node where
  | single (v : Setting)
  | list (xs : List Node)
  | table (id : Nat)
  /-- Tables given one by one, the latest first. -/
  | tables (ids : List Nat)

/-- The entries of a table, by increasing key. -/
abbrev Entries := List (String × Node)

/-- Puts a node under a key in place of the one there may be. -/
def Entries.insert (key : String) (v : Node) : Entries → Entries
  | [] => [(key, v)]
  | (k, w) :: rest =>
    if key = k then (key, v) :: rest
    else if key < k then (key, v) :: (k, w) :: rest
    else (k, w) :: insert key v rest

/-- The tables by their numbers; number 0 is the document itself. One table may stand in two places,
and what is put into it later shows in both. -/
structure Store where
  tables : Array Entries := #[[]]

namespace Store

def entries (s : Store) (id : Nat) : Entries := s.tables[id]?.getD []

def find? (s : Store) (id : Nat) (key : String) : Option Node := (s.entries id).lookup key

def put (s : Store) (id : Nat) (key : String) (v : Node) : Store :=
  { tables := s.tables.modify id (·.insert key v) }

def fresh (s : Store) : Nat × Store := (s.tables.size, { tables := s.tables.push [] })

/-- The table under a key of a table; in a list of tables it is the latest one. -/
def child? (s : Store) (id : Nat) (key : String) : Option Nat :=
  match s.find? id key with
  | some (.table t) => some t
  | some (.tables (t :: _)) => some t
  | _ => none

/-- The table that a path leads to from the document. -/
def tableAt? (s : Store) (path : List String) : Option Nat := path.foldlM s.child? 0

/-- Puts a node under a path from a table, making the tables on the way; none if something else
stands there. -/
def putAlong (s : Store) (id : Nat) (v : Node) : (path : List String) → Option Store
  | [] => some s
  | [key] => some (s.put id key v)
  | key :: path =>
    match s.find? id key with
    | none =>
      let (t, s) := s.fresh
      (s.put id key (.table t)).putAlong t v path
    | some (.table t) => s.putAlong t v path
    | some _ => none

/-- The value that a node stands for. No table holds itself, so a value lies no deeper than there are
tables and lists. -/
def resolve (s : Store) : (depth : Nat) → Node → Setting
  | 0, _ => .nothing
  | _ + 1, .single v => v
  | depth + 1, .list xs => .list (xs.map (s.resolve depth))
  | depth + 1, .table t => .table ((s.entries t).map fun e => (e.1, s.resolve depth e.2))
  | depth + 1, .tables ts =>
    .tables (ts.reverse.map fun t =>
      .table ((s.entries t).map fun e => (e.1, s.resolve depth e.2)))

end Store

end Codel.Toml
