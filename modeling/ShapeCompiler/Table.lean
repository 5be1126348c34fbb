/-!
Finite tables: lists of entries in which each key has at most one.

- `Table.get?` looks a key up, `Table.insert` adds or replaces an entry, `Table.erase` drops one.
-/

namespace ShapeCompiler

structure Table (α β : Type) where
  entries : List (α × β)

namespace Table

variable {α β : Type} [DecidableEq α]

def empty : Table α β := ⟨[]⟩

instance : EmptyCollection (Table α β) := ⟨empty⟩

instance : Inhabited (Table α β) := ⟨empty⟩

/-- The entry of a key in a list. -/
def find? (k : α) : List (α × β) → Option β
  | [] => none
  | (a, b) :: rest => if a = k then some b else find? k rest

/-- Replaces the entry of a key where it stands, or adds it at the end. -/
def put (k : α) (v : β) : List (α × β) → List (α × β)
  | [] => [(k, v)]
  | (a, b) :: rest => if a = k then (k, v) :: rest else (a, b) :: put k v rest

def get? (t : Table α β) (k : α) : Option β := find? k t.entries

def contains (t : Table α β) (k : α) : Bool := (t.get? k).isSome

def insert (t : Table α β) (k : α) (v : β) : Table α β := ⟨put k v t.entries⟩

def erase (t : Table α β) (k : α) : Table α β := ⟨t.entries.filter fun e => e.1 ≠ k⟩

def isEmpty (t : Table α β) : Bool := t.entries.isEmpty

/-- The entries that a test accepts. -/
def filter (t : Table α β) (test : α → β → Bool) : Table α β :=
  ⟨t.entries.filter fun e => test e.1 e.2⟩

end Table

end ShapeCompiler
