import ShapeCompiler.Machine.Trap

/-!
Memory: allocations and globals.

- `Memory.read` and `Memory.write` go through a pointer, `Memory.alloc` adds an allocation.
- `Value.follow` and `Value.replace` are what they do inside one region.
-/

namespace ShapeCompiler.Machine

open Code

/-- A global and what it holds. -/
structure Cell where
  name : String
  value : Value
  readonly : Bool

structure Memory where
  heap : Array Value := #[]
  globals : Array Cell := #[]

/-- The part of a value that a path leads to. The pointer is named if the path cannot be
followed. -/
def Value.follow (p : Pointer) : List Nat → Value → Except Trap Value
  | [], v => .ok v
  | i :: path, .agg items =>
    match items[i]? with
    | some item => item.follow p path
    | none => .error (.outOfBounds i)
  | _ :: _, .undef => .error .uninitializedRead
  | _ :: _, v => .error (.notAggregate v.kind p)

/-- The value with the part that a path leads to replaced. -/
def Value.replace (p : Pointer) (new : Value) : List Nat → Value → Except Trap Value
  | [], _ => .ok new
  | i :: path, .agg items =>
    match items[i]? with
    | some item => (Value.replace p new path item).map fun part => .agg (items.set i part)
    | none => .error (.outOfBounds i)
  | _ :: _, v => .error (.notAggregate v.kind p)

namespace Memory

/-- What a region holds. -/
def root (m : Memory) : Region → Except Trap Value
  | .heap index =>
    match m.heap[index]? with
    | some v => .ok v
    | none => .error (.dangling (.heap index))
  | .global id =>
    match m.globals[id.raw]? with
    | some cell => .ok cell.value
    | none => .error (.dangling (.global id))

/-- Replaces what a region holds, unless it is read-only. -/
def setRoot (m : Memory) (v : Value) : Region → Memory
  | .heap index => { m with heap := m.heap.setIfInBounds index v }
  | .global id => { m with globals := m.globals.modify id.raw fun c => { c with value := v } }

/-- Fails for a read-only global. -/
def guardWrite (m : Memory) : Region → Except Trap Unit
  | .heap _ => .ok ()
  | .global id =>
    match m.globals[id.raw]? with
    | some cell => if cell.readonly then .error (.readOnlyWrite cell.name) else .ok ()
    | none => .ok ()

def read (m : Memory) (p : Pointer) : Except Trap Value := do
  (← m.root p.region).follow p p.path

/-- What the region of `p` holds once `v` is written through `p`. -/
def written (m : Memory) (p : Pointer) (v : Value) : Except Trap Value := do
  m.guardWrite p.region
  Value.replace p v p.path (← m.root p.region)

def write (m : Memory) (p : Pointer) (v : Value) : Except Trap Memory := do
  return m.setRoot (← m.written p v) p.region

/-- A new allocation and the pointer to it. -/
def alloc (m : Memory) (v : Value) : Pointer × Memory :=
  ((Region.heap m.heap.size).root, { m with heap := m.heap.push v })

/-- Reads what a value points at. What was never written cannot be loaded. -/
def load (m : Memory) (ptr : Value) : Except Trap Value := do
  match ← m.read (← ptr.asPointer) with
  | .undef => throw .uninitializedRead
  | v => return v

def store (m : Memory) (ptr v : Value) : Except Trap Memory := do m.write (← ptr.asPointer) v

/-- Supplies the contents of a global. -/
def setGlobal (m : Memory) (id : GlobalId) (value : Value) (readonly : Bool) : Memory :=
  { m with globals := m.globals.modify id.raw fun c => { c with value, readonly } }

/-- The memory of a module before anything ran. -/
def ofModule (m : Module) : Memory where
  globals := m.globals.map fun g =>
    ⟨g.name, g.init.elim .undef (initialValue m.types g.ty), g.readonly⟩

end Memory

end ShapeCompiler.Machine
