import Mathlib
import ShapeCompiler.Machine.Run

/-!
# What a call leaves alone

Whatever code a call runs, whatever hosts it reaches and however it ends:

* `Run.Keeping.invoke`: read-only globals stay as they are, no allocation goes away, as many calls
  are under way as before, and fuel is only used;
* `Begins`, `Reaches`: what is carried out in the course of a call, and in which state;
* `Begins.keeps`: on the way the same holds, and calls never nest deeper than the limit;
* `calls_confined`: so it is for every way to call into a machine.
-/

namespace ShapeCompiler

open Code

namespace Machine

/-! ## Memory -/

/-- Read-only globals stay as they are, and no allocation goes away. -/
structure Memory.Spares (m m' : Memory) : Prop where
  shared : ∀ (g : Nat) (cell : Cell), m.globals[g]? = some cell → cell.readonly = true →
    m'.globals[g]? = some cell
  heap : m.heap.size ≤ m'.heap.size

namespace Memory

variable {m m' m'' : Memory}

theorem Spares.refl (m : Memory) : m.Spares m := ⟨fun _ _ there _ => there, Nat.le_refl _⟩

theorem Spares.trans (h : m.Spares m') (h' : m'.Spares m'') : m.Spares m'' :=
  ⟨fun g cell there fixed => h'.shared g cell (h.shared g cell there fixed) fixed,
    Nat.le_trans h.heap h'.heap⟩

theorem spares_alloc (m : Memory) (v : Value) : m.Spares (m.alloc v).2 := by
  refine ⟨fun _ _ there _ => there, ?_⟩
  simp [alloc]

/-- Writing to a region that is not guarded spares the memory. -/
theorem spares_setRoot {region : Region} (open_ : m.guardWrite region = .ok ()) (v : Value) :
    m.Spares (m.setRoot v region) := by
  cases region with
  | heap index => exact ⟨fun _ _ there _ => there, by simp [setRoot]⟩
  | global id =>
    refine ⟨fun g cell there fixed => ?_, Nat.le_refl _⟩
    have apart : id.raw ≠ g := by
      rintro rfl
      simp [guardWrite, there, fixed] at open_
    simp [setRoot, Array.getElem?_modify, apart, there]

theorem spares_store {ptr v : Value} (stored : m.store ptr v = .ok m') : m.Spares m' := by
  unfold store write written at stored
  cases isPtr : ptr.asPointer with
  | error t => simp [isPtr, Bind.bind, Except.bind] at stored
  | ok p =>
    cases open_ : m.guardWrite p.region with
    | error t => simp [isPtr, open_, Bind.bind, Except.bind] at stored
    | ok =>
      cases root : m.root p.region with
      | error t => simp [isPtr, open_, root, Bind.bind, Except.bind] at stored
      | ok whole =>
        cases replaced : Value.replace p v p.path whole with
        | error t => simp [isPtr, open_, root, replaced, Bind.bind, Except.bind] at stored
        | ok new =>
          simp only [isPtr, open_, root, replaced, Bind.bind, Except.bind, Pure.pure, Except.pure,
            Except.ok.injEq] at stored
          subst stored
          exact spares_setRoot open_ new

end Memory

/-! ## Steps -/

/-- Memory is spared, the calls under way are the same, and fuel is only used. -/
structure State.Keeps (s s' : State) : Prop where
  memory : s.memory.Spares s'.memory
  depth : s'.depth = s.depth
  fuel : s'.fuel ≤ s.fuel

namespace State

variable {s s' s'' : State}

theorem Keeps.refl (s : State) : s.Keeps s := ⟨.refl _, rfl, Nat.le_refl _⟩

theorem Keeps.trans (h : s.Keeps s') (h' : s'.Keeps s'') : s.Keeps s'' :=
  ⟨h.memory.trans h'.memory, h'.depth.trans h.depth, Nat.le_trans h'.fuel h.fuel⟩

end State

/-- The state in which a step ends, well or not. -/
def ending {α : Type} : EStateM.Result Trap State α → State
  | .ok _ s => s
  | .error _ s => s

/-- What a step gives, or why it failed. -/
def outcome {α : Type} : EStateM.Result Trap State α → Except Trap α
  | .ok a _ => .ok a
  | .error t _ => .error t

section Bind

variable {α β : Type} {m : Run α} {f : α → Run β} {s s' : State}

theorem bind_of_ok {a : α} (ran : m s = .ok a s') : (m >>= f) s = f a s' := by
  change EStateM.bind m f s = _
  simp [EStateM.bind, ran]

theorem bind_of_error {t : Trap} (ran : m s = .error t s') : (m >>= f) s = .error t s' := by
  change EStateM.bind m f s = _
  simp [EStateM.bind, ran]

end Bind

theorem useFuel_apply (s : State) : useFuel s = match s.fuel with
    | 0 => .error .outOfFuel s
    | n + 1 => .ok () { s with fuel := n } := by
  obtain ⟨memory, fuel, depth, log⟩ := s
  cases fuel <;> rfl

/-- However the step ends, it keeps the state. -/
def Run.Keeping {α : Type} (m : Run α) : Prop := ∀ s : State, s.Keeps (ending (m s))

namespace Run.Keeping

variable {α β : Type}

theorem pure (a : α) : Keeping (Pure.pure a) := fun s => .refl s

theorem throw (t : Trap) : Keeping (throw t : Run α) := fun s => .refl s

theorem bind {m : Run α} {k : α → Run β} (first : Keeping m) (rest : ∀ a, Keeping (k a)) :
    Keeping (m >>= k) := by
  intro s
  have kept := first s
  cases ran : m s with
  | ok a s₁ =>
    rw [ran] at kept
    rw [bind_of_ok ran]
    exact kept.trans (rest a s₁)
  | error t s₁ =>
    rw [ran] at kept
    rw [bind_of_error ran]
    exact kept

theorem get_bind {k : State → Run α} (rest : ∀ s, Keeping (k s)) : Keeping (get >>= k) :=
  fun s => rest s s

theorem ofExcept (x : Except Trap α) : Keeping (Run.ofExcept x) := by
  cases x with
  | ok a => exact pure a
  | error t => exact throw t

/-- What is tried keeps the state also where it fails. -/
theorem attempt {m : Run α} (h : Keeping m) : Keeping (attempt m) := by
  intro s
  have kept := h s
  unfold Machine.attempt
  cases ran : m s with
  | ok a s₁ =>
    rw [ran] at kept
    exact kept
  | error t s₁ =>
    rw [ran] at kept
    exact kept

theorem useFuel : Keeping useFuel := by
  intro s
  rw [useFuel_apply]
  split
  · exact .refl s
  · rename_i n left
    exact ⟨.refl _, rfl, by simp [ending, left]⟩

theorem allocate (v : Value) : Keeping (allocate v) :=
  fun s => ⟨s.memory.spares_alloc v, rfl, Nat.le_refl _⟩

theorem loadValue (ptr : Value) : Keeping (loadValue ptr) := get_bind fun _ => ofExcept _

theorem storeValue (ptr v : Value) : Keeping (storeValue ptr v) := by
  intro s
  rw [storeValue_eq]
  cases stored : s.memory.store ptr v with
  | ok memory => exact ⟨Memory.spares_store stored, rfl, Nat.le_refl _⟩
  | error t => exact .refl s

section Calls

variable {invoke : Invoke}

theorem execInst (types : TypeTable) (calls : ∀ f args, Keeping (invoke f args)) (r : Registers)
    (inst : Inst) : Keeping (execInst types invoke r inst) := by
  cases inst with
  | const dst value => exact pure _
  | alloc dst ty => exact (allocate _).bind fun _ => pure _
  | load dst ty ptr => exact (loadValue _).bind fun _ => pure _
  | store value ptr => exact (storeValue _ _).bind fun _ => pure _
  | fieldAddr dst ty ptr index => exact (ofExcept _).bind fun _ => pure _
  | elemAddr dst elem ptr index =>
    exact (ofExcept _).bind fun _ => (ofExcept _).bind fun _ => (ofExcept _).bind fun _ => pure _
  | call dst func args => exact (calls _ _).bind fun _ => pure _
  | callIndirect dst sig callee args =>
    exact (ofExcept _).bind fun _ => (calls _ _).bind fun _ => pure _
  | bitcast dst value ty => exact pure _
  | binary dst op lhs rhs => exact (ofExcept _).bind fun _ => pure _
  | compare dst pred lhs rhs => exact (ofExcept _).bind fun _ => pure _
  | not dst value => exact (ofExcept _).bind fun _ => pure _
  | fneg dst value => exact (ofExcept _).bind fun _ => pure _

theorem execInsts (types : TypeTable) (calls : ∀ f args, Keeping (invoke f args)) (r : Registers)
    (insts : List Inst) : Keeping (execInsts types invoke r insts) := by
  induction insts generalizing r with
  | nil => exact pure r
  | cons inst rest ih =>
    exact useFuel.bind fun _ => (execInst types calls r inst).bind fun r' => ih r'

/-- By induction on the course of the walk. -/
theorem walk (types : TypeTable) (calls : ∀ f args, Keeping (invoke f args)) (body : Code.Body)
    (id : BlockId) (idle : Nat) (r : Registers) (budget : Nat) (s : State) :
    s.Keeps (ending (walk types invoke body id idle r budget s)) := by
  have block {r : Registers} {code : List Inst} {s : State}
    {result : EStateM.Result Trap State Registers}
      (ran : Machine.execInsts types invoke r code s = result) : s.Keeps (ending result) := by
    rw [← ran]
    exact execInsts types calls r code s
  fun_induction Machine.walk types invoke body id idle r budget s with
  | case1 | case2 | case3 | case4 => exact .refl _
  | case5 id r budget s k here empty next leads idle ih => exact ih
  | case6 id idle r budget s k here isFilled t s₁ ran => exact block ran
  | case7 id idle r budget s k here isFilled r₁ s₁ ran t fails => exact block ran
  | case8 id idle r budget s k here isFilled r₁ s₁ ran v leaves => exact block ran
  | case9 id idle r budget s k here isFilled r₁ s₁ ran next leads used ih =>
    exact (block ran).trans ih
  | case10 id idle r budget s k here isFilled r₁ s₁ ran next leads unused => exact block ran

/-- The depth goes up and down again. -/
theorem nested {m : Run Value} (h : Keeping m) : Keeping (nested m) := by
  intro s
  have kept := h { s with depth := s.depth + 1 }
  unfold Machine.nested
  cases ran : m { s with depth := s.depth + 1 } with
  | ok v s₁ =>
    rw [ran] at kept
    have isDepth : s₁.depth = s.depth + 1 := kept.depth
    exact ⟨kept.memory, by simp [ending, isDepth], kept.fuel⟩
  | error t s₁ =>
    rw [ran] at kept
    have isDepth : s₁.depth = s.depth + 1 := kept.depth
    exact ⟨kept.memory, by simp [ending, isDepth], kept.fuel⟩

/-- By induction on what the host asks for. -/
theorem perform (im : Image) (calls : ∀ f args, Keeping (invoke f args)) (request : Request) :
    Keeping (request.perform im invoke) := by
  induction request with
  | done result => exact ofExcept result
  | look next ih => exact get_bind fun s => ih s
  | log entry next ih =>
    intro s
    exact (State.Keeps.mk (.refl _) rfl (Nat.le_refl _) :
      s.Keeps { s with log := s.log.push entry }).trans (ih _)
  | alloc value next ih => exact (allocate value).bind ih
  | write ptr value next ih => exact (storeValue ptr value).attempt.bind ih
  | run function args next ih =>
    exact ((ofExcept _).bind fun f => calls f args).attempt.bind ih
  | callFunction function args next ih => exact (calls _ args).attempt.bind ih
  | callValue callee args next ih =>
    exact ((ofExcept _).bind fun f => calls f args).attempt.bind ih

end Calls

/-- By induction on how deep calls nest. -/
theorem invoke (im : Image) (levels : Nat) (callee : Callee) (args : List Value) :
    Keeping (invoke im levels callee args) := by
  induction levels generalizing callee args with
  | zero => exact throw _
  | succ levels ih =>
    cases callee with
    | host id =>
      simp only [Machine.invoke]
      split
      · exact throw _
      · exact perform im ih _
    | function id =>
      simp only [Machine.invoke]
      split
      · exact throw _
      · split
        · exact throw _
        · split
          · split
            · exact throw _
            · exact ih _ _
          · rename_i body isBody
            have runs : Keeping (execBody im.code.types (Machine.invoke im levels) body args) :=
              fun s => walk im.code.types ih body _ _ _ _ s
            refine get_bind fun s => ?_
            split
            · exact (throw _).bind fun _ => runs.nested
            · exact runs.nested

end Run.Keeping

/-! ## The course of a call -/

/-- What the machine carries out, with calls below it that nest at most `levels` deep. -/
inductive Task where
  | call (levels : Nat) (callee : Callee) (args : List Value)
  /-- A body from a block on. -/
  | body (levels : Nat) (body : Code.Body) (block : BlockId) (values : Registers)
  | insts (levels : Nat) (values : Registers) (insts : List Inst)
  /-- What a host still asks for. -/
  | request (levels : Nat) (request : Request)

/-- The values of a body at its start. -/
def startValues (body : Code.Body) (args : List Value) : Registers :=
  let count := body.values.size
  (args.take count ++ List.replicate (count - args.length) Value.undef).toArray

/-- The call that an instruction makes. -/
def callOf (r : Registers) : Inst → Option (Callee × List Value)
  | .call _ func args => some (.function func, args.map r.read)
  | .callIndirect _ _ callee args =>
    match (r.read callee).callee with
    | .ok target => some (target, args.map r.read)
    | .error _ => none
  | _ => none

/-- The call that a host asks for, and how it goes on with what comes of it. -/
def Request.callBack? (im : Image) :
    Request → Option (Except Trap Callee × List Value × (Except Trap Value → Request))
  | .run function args next => some (im.functionNamed function, args, next)
  | .callFunction function args next => some (.ok (.function function), args, next)
  | .callValue callee args next => some (callee.callee, args, next)
  | _ => none

/-- In the course of the first task, started in the first state, the second one is started in the
second state. What comes in between two parts of a task is what the machine does. -/
inductive Begins (im : Image) : Task → State → Task → State → Prop where
  | host {levels : Nat} {id : HostId} {host : Host} {args : List Value} {s : State}
    (known : im.hosts[id.raw]? = some host) :
    Begins im (.call (levels + 1) (.host id) args) s (.request levels (host.act args)) s
  | external {levels : Nat} {id : FuncId} {f : Function} {host : HostId}
    {args : List Value} {s : State}
    (known : im.code.function? id = some f) (fits : args.length = f.params.length)
    (noBody : f.body = none) (named : im.hostNamed f.name = some host) :
    Begins im (.call (levels + 1) (.function id) args) s (.call levels (.host host) args) s
  | enter {levels : Nat} {id : FuncId} {f : Function} {body : Code.Body}
    {args : List Value} {s : State}
    (known : im.code.function? id = some f) (fits : args.length = f.params.length)
    (hasBody : f.body = some body) (room : s.depth < maxDepth) :
    Begins im (.call (levels + 1) (.function id) args) s
      (.body levels body ⟨0⟩ (startValues body args)) { s with depth := s.depth + 1 }
  | block {levels : Nat} {body : Code.Body} {id : BlockId} {r : Registers} {k : Block} {s : State}
    (here : body.blocks[id.raw]? = some k) :
    Begins im (.body levels body id r) s (.insts levels r k.insts.toList) s
  | jump {levels : Nat} {body : Code.Body} {id next : BlockId} {r r' : Registers} {k : Block}
    {s s' : State} (here : body.blocks[id.raw]? = some k)
    (ran : execInsts im.code.types (invoke im levels) r k.insts.toList s = .ok r' s')
    (leads : exitBlock r' k = .ok (.goto next)) :
    Begins im (.body levels body id r) s (.body levels body next r') s'
  | inst {levels : Nat} {r : Registers} {inst : Inst} {rest : List Inst} {callee : Callee}
    {args : List Value} {s s' : State} (charged : useFuel s = .ok () s')
    (calls : callOf r inst = some (callee, args)) :
    Begins im (.insts levels r (inst :: rest)) s (.call levels callee args) s'
  | next {levels : Nat} {r r' : Registers} {inst : Inst} {rest : List Inst} {s s₁ s' : State}
    (charged : useFuel s = .ok () s₁)
    (ran : execInst im.code.types (invoke im levels) r inst s₁ = .ok r' s') :
    Begins im (.insts levels r (inst :: rest)) s (.insts levels r' rest) s'
  | look {levels : Nat} {next : State → Request} {s : State} :
    Begins im (.request levels (.look next)) s (.request levels (next s)) s
  | log {levels : Nat} {entry : Entry} {next : Request} {s : State} :
    Begins im (.request levels (.log entry next)) s (.request levels next)
      { s with log := s.log.push entry }
  | alloc {levels : Nat} {value v : Value} {next : Value → Request} {s s' : State}
    (made : allocate value s = .ok v s') :
    Begins im (.request levels (.alloc value next)) s (.request levels (next v)) s'
  | write {levels : Nat} {ptr value : Value} {next : Except Trap Unit → Request}
    {ended : Except Trap Unit} {s s' : State}
      (tried : attempt (storeValue ptr value) s = .ok ended s') :
    Begins im (.request levels (.write ptr value next)) s (.request levels (next ended)) s'
  | callBack {levels : Nat} {request : Request} {target : Except Trap Callee} {callee : Callee}
    {args : List Value} {next : Except Trap Value → Request} {s : State}
    (asks : request.callBack? im = some (target, args, next)) (known : target = .ok callee) :
    Begins im (.request levels request) s (.call levels callee args) s
  | answer {levels : Nat} {request : Request} {target : Except Trap Callee} {args : List Value}
    {next : Except Trap Value → Request} {ended : Except Trap Value} {s s' : State}
    (asks : request.callBack? im = some (target, args, next))
    (tried : attempt (do invoke im levels (← Run.ofExcept target) args) s = .ok ended s') :
    Begins im (.request levels request) s (.request levels (next ended)) s'

/-- Any number of tasks, each in the course of the one before. -/
inductive Reaches (im : Image) (t : Task) (s : State) : Task → State → Prop where
  | start : Reaches im t s t s
  | next {t' t'' : Task} {s' s'' : State} (before : Reaches im t s t' s')
    (begins : Begins im t' s' t'' s'') : Reaches im t s t'' s''

/-- In the course of a task memory is spared and fuel is only used. More calls may be under way, but
not more than the limit. -/
structure State.Bounds (s s' : State) : Prop where
  memory : s.memory.Spares s'.memory
  fuel : s'.fuel ≤ s.fuel
  depth : s.depth ≤ maxDepth → s'.depth ≤ maxDepth

theorem State.Bounds.refl (s : State) : s.Bounds s := ⟨.refl _, Nat.le_refl _, id⟩

theorem State.Bounds.trans {s s' s'' : State} (h : s.Bounds s') (h' : s'.Bounds s'') :
    s.Bounds s'' :=
  ⟨h.memory.trans h'.memory, Nat.le_trans h'.fuel h.fuel, fun shallow => h'.depth (h.depth shallow)⟩

theorem State.Keeps.bounds {s s' : State} (h : s.Keeps s') : s.Bounds s' :=
  ⟨h.memory, h.fuel, fun shallow => h.depth ▸ shallow⟩

/-- What a step does not change, where it ends well. -/
theorem Run.Keeping.of_ok {α : Type} {m : Run α} (h : m.Keeping) {s s' : State} {a : α}
    (ran : m s = .ok a s') : s.Keeps s' := by
  have kept := h s
  rwa [ran] at kept

theorem Begins.bounds {im : Image} {t t' : Task} {s s' : State} (h : Begins im t s t' s') :
    s.Bounds s' := by
  cases h with
  | host | external | block | look | callBack => exact .refl s
  | enter _ _ _ room => exact ⟨.refl _, Nat.le_refl _, fun _ => room⟩
  | jump _ ran _ =>
    exact ((Run.Keeping.execInsts _ (Run.Keeping.invoke im _) _ _).of_ok ran).bounds
  | inst charged _ => exact (Run.Keeping.useFuel.of_ok charged).bounds
  | next charged ran =>
    exact (Run.Keeping.useFuel.of_ok charged).bounds.trans
      ((Run.Keeping.execInst _ (Run.Keeping.invoke im _) _ _).of_ok ran).bounds
  | log => exact ⟨.refl _, Nat.le_refl _, id⟩
  | alloc made => exact ((Run.Keeping.allocate _).of_ok made).bounds
  | write tried => exact ((Run.Keeping.storeValue _ _).attempt.of_ok tried).bounds
  | answer _ tried =>
    refine (Run.Keeping.of_ok (.attempt ?_) tried).bounds
    exact (Run.Keeping.ofExcept _).bind fun f => Run.Keeping.invoke im _ f _

theorem Reaches.bounds {im : Image} {t t' : Task} {s s' : State} (h : Reaches im t s t' s') :
    s.Bounds s' := by
  induction h with
  | start => exact .refl s
  | next _ begins ih => exact ih.trans begins.bounds

/-! ## Calls into a machine -/

/-- The ways to call into a machine. -/
inductive Call where
  | named (name : String)
  | function (id : FuncId)
  | value (v : Value)

/-- What is called. -/
def Call.target (im : Image) : Call → Except Trap Callee
  | .named name => im.functionNamed name
  | .function id => .ok (.function id)
  | .value v => v.callee

def call (m : Machine) (args : List Value) (c : Call) (levels : Nat := maxNesting) :
    Except Trap Value × Machine :=
  match c with
  | .named name => m.run name args levels
  | .function id => m.callFunction id args levels
  | .value v => m.callValue v args levels

theorem call_eq (m : Machine) (args : List Value) (c : Call) (levels : Nat) :
    m.call args c levels =
      m.step (do invoke m.image levels (← Run.ofExcept (c.target m.image)) args) := by
  cases c <;> rfl

/-- In the course of the call, the task is started in the state. -/
def Passes (m : Machine) (args : List Value) (c : Call) (levels : Nat) (t : Task) (s : State) :
    Prop :=
  ∃ callee, c.target m.image = .ok callee ∧
    Reaches m.image (.call levels callee args) m.state t s

theorem step_eq {α : Type} (m : Machine) (run : Run α) :
    m.step run = (outcome (run m.state), { m with state := ending (run m.state) }) := by
  unfold step
  cases run m.state <;> rfl

/-- Whatever a call runs, however deep functions and hosts call one another and however it ends,
read-only globals stay as they are, no allocation goes away, as many calls are under way as before
and fuel is only used. This holds throughout the call, but for the calls of functions under way,
which are never more than the limit. The levels are those of the computer's stack, any number. -/
theorem calls_confined (m : Machine) (args : List Value) (c : Call) (levels : Nat)
    (shallow : m.state.depth ≤ maxDepth) :
    m.state.Keeps (m.call args c levels).2.state ∧ ∀ t s, m.Passes args c levels t s →
      m.state.memory.Spares s.memory ∧ s.fuel ≤ m.state.fuel ∧ s.depth ≤ maxDepth := by
  constructor
  · rw [call_eq, step_eq]
    exact (Run.Keeping.ofExcept _).bind (fun f => Run.Keeping.invoke m.image levels f args) m.state
  · rintro t s ⟨callee, _, reaches⟩
    have bounds := reaches.bounds
    exact ⟨bounds.memory, bounds.fuel, bounds.depth shallow⟩

/-- A function that calls itself and then writes to a read-only global, close to the limit of
calls. -/
def almostFull : Machine :=
  let m := ofModule {
    name := "descending"
    functions := #[⟨"main", [], .void, some {
      blocks := #[⟨"entry", #[.const ⟨0⟩ (.global ⟨0⟩), .alloc ⟨1⟩ .ptr, .call none ⟨0⟩ [],
        .store ⟨1⟩ ⟨0⟩], some (.ret none)⟩]
      values := #[⟨.ptr, "table"⟩, ⟨.ptr, "new"⟩] }⟩]
    globals := #[⟨"table", .ptr, true, some .zero⟩] }
  { m with state := { m.state with depth := 198 } }

/-- It stops at the limit, and the calls under way are counted as before. -/
theorem calls_confined_almostFull : almostFull.state.depth ≤ maxDepth ∧
    (almostFull.call [] (.named "main")).1 = .error .stackOverflow ∧
    almostFull.state.Keeps (almostFull.call [] (.named "main")).2.state :=
  ⟨by decide, by cbv, (calls_confined almostFull [] (.named "main") maxNesting (by decide)).1⟩

end Machine

end ShapeCompiler
