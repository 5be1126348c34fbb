import ShapeCompiler.Machine.Host

/-!
Running a module.

Every instruction takes one unit of fuel. Calls of module functions nest at most `maxDepth` deep.
Hosts that call hosts are not counted there: only the stack of the computer ends them. That stack
is a parameter of a run, the number of levels that calls of any kind can nest. A walk through more
empty blocks in a row than there are blocks has come back to a block in the same state and never
ends; it is stopped.

- `execInst` runs one instruction, `walk` a body from a block on, `invoke` a call.
- `Machine.run` and `Machine.callValue` start a run.
-/

namespace ShapeCompiler.Machine

open Code

/-- A step of a run; a trap keeps the state reached. -/
abbrev Run := EStateM Trap State

/-- What does not change during a run. -/
structure Image where
  code : Module
  hosts : Array Host

def maxDepth : Nat := 200

/-- The levels of a run for which no other number is given. -/
def maxNesting : Nat := 1000

def defaultFuel : Nat := 1000000

/-- What a call can reach. -/
inductive Callee where
  | function (id : FuncId)
  | host (id : HostId)

/-- How calls are carried out. -/
abbrev Invoke := Callee → List Value → Run Value

namespace Image

/-- The host that was registered last under a name. -/
def hostNamed (im : Image) (name : String) : Option HostId :=
  ((List.range im.hosts.size).reverse.find? fun i =>
    (im.hosts[i]?).any (·.name = name)).map HostId.mk

def functionNamed (im : Image) (name : String) : Except Trap Callee :=
  match im.code.functionByName name with
  | some id => .ok (.function id)
  | none => .error (.unresolvedSymbol name)

end Image

/-- What is called through an address. -/
def Value.callee : Value → Except Trap Callee
  | .func id => .ok (.function id)
  | .host id => .ok (.host id)
  | .null => .error .nullCall
  | v => .error (.notCallable v.kind)

/-! ## Single instructions -/

def binaryValue (op : BinaryOp) (lhs rhs : Value) : Except Trap Value :=
  match op with
  | .fadd => do return .float ((← lhs.asFloat) + (← rhs.asFloat))
  | .fsub => do return .float ((← lhs.asFloat) - (← rhs.asFloat))
  | .fmul => do return .float ((← lhs.asFloat) * (← rhs.asFloat))
  | .fdiv => do return .float ((← lhs.asFloat) / (← rhs.asFloat))
  | .add => do return .int ((← lhs.asInt) + (← rhs.asInt))
  | .sub => do return .int ((← lhs.asInt) - (← rhs.asInt))
  | .mul => do return .int ((← lhs.asInt) * (← rhs.asInt))
  | .and =>
    match lhs, rhs with
    | .bool a, .bool b => .ok (.bool (a && b))
    | _, _ => do return .int ((← lhs.asInt) &&& (← rhs.asInt))
  | .or =>
    match lhs, rhs with
    | .bool a, .bool b => .ok (.bool (a || b))
    | _, _ => do return .int ((← lhs.asInt) ||| (← rhs.asInt))
  | .concat => do return .text ((← lhs.asText) ++ (← rhs.asText))

/-- The predicate holds of two things that compare so. -/
def Predicate.holds (pred : Predicate) (ord : Ordering) : Bool :=
  match pred with
  | .eq => ord == .eq
  | .ne => ord != .eq
  | .lt => ord == .lt
  | .gt => ord == .gt
  | .le => ord != .gt
  | .ge => ord != .lt

/-- The order of two numbers; there is none if one of them is not a number. -/
def floatOrder (a b : Float) : Option Ordering :=
  if a < b then some .lt else if a > b then some .gt else if a == b then some .eq else none

/-- The order of two values that have one. Numbers that are not ordered are only unequal. -/
def compareValues (pred : Predicate) (lhs rhs : Value) : Except Trap Bool :=
  match lhs, rhs with
  | .float a, .float b => .ok ((floatOrder a b).elim (pred = .ne) (Predicate.holds pred))
  | .int a, .int b => .ok (Predicate.holds pred (compare a.toInt b.toInt))
  | .bool a, .bool b => .ok (Predicate.holds pred (compare a b))
  | .text a, .text b => .ok (Predicate.holds pred (compare a b))
  | _, _ =>
    match lhs.address?, rhs.address? with
    | some a, some b =>
      match pred with
      | .eq => .ok (a = b)
      | .ne => .ok (a ≠ b)
      | _ => .error .unorderedAddresses
    | _, _ => .error (.incomparable lhs.kind rhs.kind)

/-- The values of a body while it runs. -/
abbrev Registers := Array Value

def Registers.read (r : Registers) (v : ValueId) : Value := r.getD v.raw .undef

def Registers.write (r : Registers) (v : ValueId) (x : Value) : Registers :=
  r.setIfInBounds v.raw x

/-- Lifts what needs no state. -/
def Run.ofExcept {α : Type} : Except Trap α → Run α
  | .ok a => pure a
  | .error t => throw t

def useFuel : Run Unit := do
  let s ← get
  match s.fuel with
  | 0 => throw .outOfFuel
  | fuel + 1 => set { s with fuel }

def allocate (v : Value) : Run Value := do
  let s ← get
  let (p, memory) := s.memory.alloc v
  set { s with memory }
  return .ptr p

def loadValue (ptr : Value) : Run Value := do Run.ofExcept ((← get).memory.load ptr)

/-- Writes through a pointer, as `storeValue_eq` says. The new contents of the region are found
first, so that no second reference to the memory is held while it changes in place. -/
def storeValue (ptr v : Value) : Run Unit := do
  let p ← Run.ofExcept ptr.asPointer
  let whole ← Run.ofExcept ((← get).memory.written p v)
  modify fun s => { s with memory := s.memory.setRoot whole p.region }

/-- A failed write leaves the state as it was. -/
theorem storeValue_eq (ptr v : Value) (s : State) :
    storeValue ptr v s =
      match s.memory.store ptr v with
      | .ok memory => .ok () { s with memory }
      | .error t => .error t s := by
  unfold storeValue Memory.store
  cases ptr.asPointer with
  | error t => rfl
  | ok p =>
    change (Run.ofExcept (s.memory.written p v) >>= fun whole =>
        modify fun s : State => { s with memory := s.memory.setRoot whole p.region }) s =
      match (s.memory.written p v >>= fun whole => pure (s.memory.setRoot whole p.region)) with
      | .ok memory => .ok () { s with memory }
      | .error t => .error t s
    cases s.memory.written p v <;> rfl

/-- The element number that an integer stands for. -/
def elementIndex (i : Int64) : Except Trap Nat :=
  let n := i.toInt
  if 0 ≤ n ∧ n < 0x100000000 then .ok n.toNat else .error (.outOfBounds n)

def execInst (types : TypeTable) (invoke : Invoke) (r : Registers) :
    Inst → Run Registers
  | .const dst value => return r.write dst (constValue value)
  | .alloc dst ty => return r.write dst (← allocate (zeroValue types ty))
  | .load dst _ ptr => return r.write dst (← loadValue (r.read ptr))
  | .store value ptr => do
    storeValue (r.read ptr) (r.read value)
    return r
  | .fieldAddr dst _ ptr index => do
    let p ← Run.ofExcept (r.read ptr).asPointer
    return r.write dst (.ptr (p.child index))
  | .elemAddr dst _ ptr index => do
    let i ← Run.ofExcept (r.read index).asInt
    let i ← Run.ofExcept (elementIndex i)
    let p ← Run.ofExcept (r.read ptr).asPointer
    return r.write dst (.ptr (p.child i))
  | .call dst func args => do
    let result ← invoke (.function func) (args.map r.read)
    return dst.elim r (r.write · result)
  | .callIndirect dst _ callee args => do
    let target ← Run.ofExcept (r.read callee).callee
    let result ← invoke target (args.map r.read)
    return dst.elim r (r.write · result)
  | .bitcast dst value _ => return r.write dst (r.read value)
  | .binary dst op lhs rhs => do
    return r.write dst (← Run.ofExcept (binaryValue op (r.read lhs) (r.read rhs)))
  | .compare dst pred lhs rhs => do
    return r.write dst (.bool (← Run.ofExcept (compareValues pred (r.read lhs) (r.read rhs))))
  | .not dst value => do
    return r.write dst (.bool (!(← Run.ofExcept (r.read value).asBool)))
  | .fneg dst value => do
    return r.write dst (.float (-(← Run.ofExcept (r.read value).asFloat)))

def execInsts (types : TypeTable) (invoke : Invoke) (r : Registers) :
    List Inst → Run Registers
  | [] => pure r
  | inst :: rest => do
    useFuel
    let r ← execInst types invoke r inst
    execInsts types invoke r rest

/-! ## Bodies -/

/-- Where control goes at the end of a block. -/
inductive Next where
  | leave (result : Value)
  | goto (block : BlockId)

def exitBlock (r : Registers) (block : Block) : Except Trap Next :=
  match block.exit with
  | none => .error (.unterminated block.name)
  | some (.ret value) => .ok (.leave (value.elim .undef r.read))
  | some (.br target) => .ok (.goto target)
  | some (.condBr cond thenBlock elseBlock) => do
    return .goto (if ← (r.read cond).asBool then thenBlock else elseBlock)
  | some (.switch value default cases) => do
    let v ← (r.read value).asInt
    return .goto ((cases.find? (·.1 = v)).elim default (·.2))
  | some .unreachable => .error .unreachable

/-- Runs a body from a block on, with `budget` units of fuel left. `idle` more empty blocks may
follow one another. -/
def walk (types : TypeTable) (invoke : Invoke) (body : Body) (id : BlockId) (idle : Nat)
    (r : Registers) (budget : Nat) (s : State) : EStateM.Result Trap State Value :=
  match body.blocks[id.raw]? with
  | none => .error (.missingBlock id) s
  | some block =>
    if block.insts.isEmpty then
      match exitBlock r block with
      | .error t => .error t s
      | .ok (.leave v) => .ok v s
      | .ok (.goto next) =>
        match idle with
        | 0 => .error .endless s
        | idle + 1 => walk types invoke body next idle r budget s
    else
      match execInsts types invoke r block.insts.toList s with
      | .error t s => .error t s
      | .ok r s =>
        match exitBlock r block with
        | .error t => .error t s
        | .ok (.leave v) => .ok v s
        | .ok (.goto next) =>
          if s.fuel < budget then walk types invoke body next body.blocks.size r s.fuel s
          else .error .endless s
termination_by (budget, idle)

/-- Runs a body from its entry. -/
def execBody (types : TypeTable) (invoke : Invoke) (body : Body) (args : List Value) :
    Run Value :=
  let count := body.values.size
  let r := (args.take count ++ List.replicate (count - args.length) Value.undef).toArray
  fun s => walk types invoke body ⟨0⟩ body.blocks.size r s.fuel s

/-- Counts one more call under way, and takes it back however the call ends. -/
def nested (run : Run Value) : Run Value := fun s =>
  match run { s with depth := s.depth + 1 } with
  | .ok v s' => .ok v { s' with depth := s'.depth - 1 }
  | .error t s' => .error t { s' with depth := s'.depth - 1 }

/-! ## Calls -/

/-- Runs a step and hands over how it ended. -/
def attempt {α : Type} (run : Run α) : Run (Except Trap α) := fun s =>
  match run s with
  | .ok a s' => .ok (.ok a) s'
  | .error t s' => .ok (.error t) s'

/-- Carries out what a host asks for. -/
def Request.perform (im : Image) (invoke : Invoke) : Request → Run Value
  | .done result => Run.ofExcept result
  | .look next => do (next (← get)).perform im invoke
  | .log entry next => do
    modify fun s => { s with log := s.log.push entry }
    next.perform im invoke
  | .alloc value next => do (next (← allocate value)).perform im invoke
  | .write ptr value next => do
    (next (← attempt (storeValue ptr value))).perform im invoke
  | .run function args next => do
    let result ← attempt do invoke (← Run.ofExcept (im.functionNamed function)) args
    (next result).perform im invoke
  | .callFunction function args next => do
    (next (← attempt (invoke (.function function) args))).perform im invoke
  | .callValue callee args next => do
    let result ← attempt do invoke (← Run.ofExcept callee.callee) args
    (next result).perform im invoke

/-- Carries out a call on a stack that has room for `levels` calls inside one another. -/
def invoke (im : Image) : Nat → Invoke
  | 0, _, _ => throw .nestingLimit
  | levels + 1, .host id, args =>
    match im.hosts[id.raw]? with
    | none => throw (.unresolvedSymbol s!"host#{id.raw}")
    | some host => (host.act args).perform im (invoke im levels)
  | levels + 1, .function id, args =>
    match im.code.function? id with
    | none => throw (.unknownFunction id)
    | some f =>
      if args.length ≠ f.params.length then
        throw (.arity f.name f.params.length args.length)
      else
        match f.body with
        | none =>
          match im.hostNamed f.name with
          | none => throw (.unresolvedSymbol f.name)
          | some host => invoke im levels (.host host) args
        | some body => do
          if maxDepth ≤ (← get).depth then throw .stackOverflow
          nested (execBody im.code.types (invoke im levels) body args)

end ShapeCompiler.Machine

namespace ShapeCompiler

open Code Machine

/-- A module with the hosts around it and the state of its memory. -/
structure Machine where
  image : Machine.Image
  state : Machine.State

namespace Machine

def ofModule (code : Module) : Machine where
  image := ⟨code, #[]⟩
  state := { memory := Memory.ofModule code, fuel := defaultFuel }

/-- Adds a host. Functions of the module without a body and with its name reach it. -/
def register (m : Machine) (host : Host) : Value × Machine :=
  let image := { m.image with hosts := m.image.hosts.push host }
  (.host ⟨m.image.hosts.size⟩, { m with image })

def setFuel (m : Machine) (fuel : Nat) : Machine := { m with state := { m.state with fuel } }

/-- Supplies the contents of a global. -/
def defineGlobal (m : Machine) (name : String) (value : Value) (readonly : Bool) :
    Except Trap Machine :=
  match m.image.code.globalByName name with
  | none => .error (.unresolvedSymbol name)
  | some id =>
    let memory := m.state.memory.setGlobal id value readonly
    .ok { m with state := { m.state with memory } }

def globalAddress (m : Machine) (name : String) : Option Value :=
  (m.image.code.globalByName name).map fun id => .ptr (Region.global id).root

def functionAddress (m : Machine) (name : String) : Option Value :=
  (m.image.code.functionByName name).map .func

def allocations (m : Machine) : Nat := m.state.memory.heap.size

/-- Runs a step on the machine's state. -/
def step {α : Type} (m : Machine) (run : Run α) : Except Trap α × Machine :=
  match run m.state with
  | .ok a state => (.ok a, { m with state })
  | .error t state => (.error t, { m with state })

def alloc (m : Machine) (v : Value) : Except Trap Value × Machine := m.step (allocate v)

def load (m : Machine) (ptr : Value) : Except Trap Value := m.state.memory.load ptr

def store (m : Machine) (ptr v : Value) : Except Trap Unit × Machine := m.step (storeValue ptr v)

/-- The number, truth value or text in a box. -/
def loadFloat (m : Machine) (ptr : Value) : Except Trap Float := m.load ptr >>= Value.asFloat

def loadBool (m : Machine) (ptr : Value) : Except Trap Bool := m.load ptr >>= Value.asBool

def loadText (m : Machine) (ptr : Value) : Except Trap String := m.load ptr >>= Value.asText

/-- The address of an element of what a value points at. -/
def field (_m : Machine) (ptr : Value) (index : Nat) : Except Trap Value :=
  ptr.asPointer.map fun p => .ptr (p.child index)

/-- Calls the function of a name. -/
def run (m : Machine) (name : String) (args : List Value) (levels : Nat := maxNesting) :
    Except Trap Value × Machine :=
  m.step do invoke m.image levels (← Run.ofExcept (m.image.functionNamed name)) args

def callFunction (m : Machine) (id : FuncId) (args : List Value) (levels : Nat := maxNesting) :
    Except Trap Value × Machine :=
  m.step (invoke m.image levels (.function id) args)

/-- Calls through an address. -/
def callValue (m : Machine) (callee : Value) (args : List Value) (levels : Nat := maxNesting) :
    Except Trap Value × Machine :=
  m.step do invoke m.image levels (← Run.ofExcept callee.callee) args

/-- The log so far, which is emptied. -/
def takeLog (m : Machine) : Array Entry × Machine :=
  (m.state.log, { m with state := { m.state with log := #[] } })

end Machine

end ShapeCompiler
