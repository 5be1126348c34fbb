import ShapeCompiler.Proofs.Hierarchies
import ShapeCompiler.Proofs.Slots

/-!
# Methods as values

* `RunsOn`: a call runs a method on an object, possibly after some calls in between;
* `Binds`, `Serves.runsOn`: closures of methods, and what stands in the slots of objects, run a
  method;
* `Emit.RunsMethod`: compiled code runs up to a call that runs a method.
-/

namespace ShapeCompiler

open Source Code Work Machine

/-! ## Calls that run a method -/

/-- A call runs a method on an object: after some calls in between it gets to a body of the method,
in an environment with the object in the slot of the receiver. -/
inductive RunsOn (s : Setup) (w : Work) (im : Image) (m : DeclId) (this : Value) (mem : Memory)
    (target : Callee) (vals : List Value) : Prop where
  | mk {cls : DeclId} {c : CompiledFunction} {e : Environment} {fields : List Value} {j : Nat}
    {mem' : Memory} (between needed : Nat) (compiled : CompiledFor s w cls m c)
    (bound : w.registry.declEnv? m = some c.env) (env : w.registry.env? c.env = some e)
    (cell : mem'.heap[j]? = some (.agg fields)) (length : fields.length = e.slots.length)
    (receiver : ∀ r, e.receiverSlot = some r → fields[r]? = some this)
    (calls : ∀ (levels : Nat) (st : State), st.memory = mem → st.depth + between ≤ maxDepth →
      needed ≤ st.fuel → invoke im (levels + between) target vals st =
        outside between (invoke im levels (.function c.func) [address j]
          { st with depth := st.depth + between, memory := mem', fuel := st.fuel - needed }))

/-- A closure of a method with its receiver. -/
inductive Binds (s : Setup) (w : Work) (m : DeclId) (this : Value) (mem : Memory) (k : Nat) :
    Prop where
  | mk {base : Work} {cls : DeclId} {c : CompiledFunction} {e : Environment} {fields : List Value}
    {j : Nat} (isCell : k = j + 1) (held : Held s base w mem cls m this c e fields j)

theorem Binds.later {s : Setup} {w w' : Work} {m : DeclId} {this : Value} {mem : Memory} {k : Nat}
    (h : Binds s w m this mem k) (later : Later s w w') : Binds s w' m this mem k := by
  obtain ⟨isCell, held⟩ := h
  exact ⟨isCell, held.later later (.refl [] _) (by simp)⟩

section

variable {s : Setup} {w : Work} {im : Image} {m : DeclId}

/-- A call of the closure runs the method. -/
theorem Binds.runsOn {this : Value} {mem : Memory} {k : Nat} (h : Binds s w m this mem k)
    (standard : s.runtime = startModule.1) (apart : s.config.entryName ≠ closureCallName)
    (moment : Moment s w) (isCode : im.code = w.code) :
    RunsOn s w im m this mem (.function s.runtime.call) [address k] := by
  obtain ⟨rfl, held⟩ := h
  have isCall := moment.closureCall apart
  rw [← standard, ← isCode] at isCall
  obtain ⟨needed, calls⟩ := invoke_closure isCall held.pair
  refine .mk 1 needed held.compiled held.bound held.env
    held.cell held.length held.receiver ?_
  rintro levels st rfl shallow fuel
  exact calls levels st rfl shallow fuel

/-- Makes an environment and moves the object and the arguments to it. -/
def thunkStart (e : Environment) : Writing ValueId := do
  let env ← Draft.alloc e.record "env"
  passArguments e env
  return env

theorem thunkSteps_eq (e : Environment) (func : FuncId) : thunkSteps e func =
    (thunkStart e >>= fun env => endWith fun dst => .call dst func [env]) := by
  simp only [thunkStart, bind_assoc, pure_bind]
  rfl

theorem thunkStart_does {T : TypeTable → Prop} {e : Environment} {args : List Value} (func : FuncId)
    (mem : Memory) (this : Value) (isPtr : ∀ types, T types → types.get .ptr = .ptr)
    (record : ∀ types, T types → types.fields? e.record = some (List.replicate e.slots.length .ptr))
    (ordered : e.Ordered) (arity : args.length = e.paramCount) :
    Writing.Does T (startPoint func (this :: args) mem) (thunkStart e) fun env p =>
      p.values env = address mem.heap.size ∧ ∃ fields fields' mem₀,
        fields.length = e.slots.length ∧
        Passed e this args fields mem.heap.size mem₀ p.memory fields' := by
  refine .bind (.alloc "env" fun types admitted =>
    zeroValue_record (isPtr types admitted) (record types admitted)) ?_
  rintro env p₁ goes₁ ⟨isEnv, memory₁, -⟩
  have cell : p₁.memory.heap[mem.heap.size]? =
      some (.agg (List.replicate e.slots.length .null)) := by
    rw [memory₁]
    exact Memory.heap_push mem _
  refine .bind (passArguments_does isPtr ordered isEnv cell (by simp) arity
    (goes₁.knows (knows_param rfl)) fun i v arg => goes₁.knows (knows_param (i := i + 1) arg)) ?_
  rintro _ p₂ goes₂ ⟨fields', passed⟩
  exact .pure ⟨(goes₂.knows isEnv).value, _, fields', p₁.memory, by simp, passed⟩

/-- A function of the shared table runs its method. -/
theorem Thunk.runsOn {base : Work} {root : DeclId} {c : CompiledFunction} {func : FuncId}
    {f : FunctionDecl} {args : List Value} (h : Thunk s base w root m c func) (moment : Moment s w)
    (isCode : im.code = w.code) (isFunction : s.program.function m = .ok f)
    (arity : args.length = f.params.length) (this : Value) (mem : Memory) :
    RunsOn s w im m this mem (.function func) (this :: args) := by
  obtain ⟨e, name, known, _, defined⟩ := h.code
  obtain ⟨e', known', owned⟩ := moment.declEnv_owner m c.env h.bound
  obtain rfl : e = e' := Option.some.inj (known.symm.trans known')
  have formed := moment.formed known owned
  rw [← Compile.paramCount_of_declEnv moment h.bound known isFunction] at arity
  rw [thunkSteps_eq, ← arity, ← isCode] at defined
  have start := thunkStart_does (T := (· = im.code.types)) func mem this
    (fun types same => same ▸ isCode ▸ moment.get_ptr (.refl _))
    (fun types same => same ▸ isCode ▸ formed.record) formed.ordered arity
  obtain ⟨env, p, needed, -, ⟨isEnv, fields, fields', mem₀, length, passed⟩, hands⟩ :=
    invoke_handsOver (this :: args) defined start
  refine .mk 1 needed h.asked.compiledFor h.bound known passed.cell
    (passed.length.trans length) passed.receiver ?_
  rintro levels st rfl shallow fuel
  have calls := callsAt_call im.code.types p ⟨p.size⟩ c.func [env]
  rw [List.map_singleton, isEnv] at calls
  exact hands levels st _ _ rfl calls shallow fuel

/-- What stands in a slot of an object's table runs the method behind it. -/
theorem Serves.runsOn {cls : DeclId} {n : Name} {o : Nat} {mem : Memory} {c : CompiledFunction}
    {func : FuncId} {f : FunctionDecl} {args : List Value} (h : Serves s w cls n o mem m c func)
    (standard : s.runtime = startModule.1) (apart : s.config.entryName ≠ closureCallName)
    (moment : Moment s w) (isCode : im.code = w.code) (isFunction : s.program.function m = .ok f)
    (arity : args.length = f.params.length) :
    RunsOn s w im m (address o) mem (.function func) (address o :: args) := by
  cases h with
  | shared thunk => exact thunk.runsOn moment isCode isFunction arity _ _
  | @own t overrides q slot e fields j overriding names here standing held reaching =>
    have hands := standing.handsOver standard apart moment isCode overriding names here held.bound
      held.env o j
    rw [← Compile.paramCount_of_declEnv moment held.bound held.env isFunction] at arity
    obtain ⟨mem', fields', needed, passed, calls⟩ :=
      hands mem fields args reaching held.length arity
    refine .mk 2 needed held.compiled held.bound held.env passed.cell
      (passed.length.trans held.length) passed.receiver ?_
    rintro levels st rfl shallow fuel
    exact calls levels st rfl (by omega) fuel

end

/-! ## Code that ends in a call -/

/-- The code that was written since a stage runs up to a call, and gives what the call gives. -/
def Stage.Calls (x : Stage) (frame' : Frame) (types : TypeTable) (mem : Memory) (target : Callee)
    (vals : List Value) : Prop :=
  ∃ code, x.frame.draft.Appends x.place code frame'.draft ∧
    ∀ (invoke : Invoke) (r : Registers) (st : State), r.read = x.values → st.memory = x.memory →
      frame'.draft.values.size ≤ r.size → code.length ≤ st.fuel →
        ∃ (r' : Registers) (dst : ValueId),
        execInsts types invoke r code st = (invoke target vals >>= fun v => pure (r'.write dst v))
          { st with memory := mem, fuel := st.fuel - code.length }

theorem Code.Draft.callBy_appends {d : Draft} {b : BlockId} (h : d.Open b) (name : String)
    (inst : Option ValueId → Inst) :
    d.Appends b [inst (some ⟨d.values.size⟩)] ((callBy .ptr name inst).run d).2 := by
  have noted : ({ d with values := d.values.push ⟨.ptr, name⟩ } : Draft).Open b := ⟨h.here, h.block⟩
  have written := noted.emit (inst (some ⟨d.values.size⟩))
  change d.Appends b _ ((emit (inst (some ⟨d.values.size⟩))).run
    { d with values := d.values.push ⟨.ptr, name⟩ }).2
  rw [written]
  exact ⟨rfl, rfl, by simp, #[⟨.ptr, name⟩], by simp⟩

namespace Emit

variable {s : Setup} {x x' : Stage} {frame' : Frame} {w' : Work} {types : TypeTable}

/-- A call that gives a pointer stands at the end of what was written. -/
theorem calls_of_callBy {name : String} {inst : Option ValueId → Inst} {result : Option ValueId}
    {target : Callee} {vals : List Value} (goes : x.Goes s x')
    (ran : (liftM (Draft.callBy .ptr name inst) : Emit (Option ValueId)) x'.frame s x'.work =
      .ok (result, frame') w') (admitted : x'.Admits types)
    (calls : CallsAt types x'.point (inst (some ⟨x'.size⟩)) ⟨x'.size⟩ target vals) :
    result = some ⟨x'.size⟩ ∧ x.Calls frame' types x'.memory target vals := by
  cases ran
  obtain ⟨code, appends, runs⟩ := goes.point.code
  have last := Draft.callBy_appends x'.isOpen name inst
  rw [show x'.place = x.place from goes.point.place] at last
  refine ⟨rfl, code ++ [inst (some ⟨x'.size⟩)], appends.trans last, ?_⟩
  intro invoke r st values memory room fuel
  rw [List.length_append, List.length_singleton] at fuel
  obtain ⟨r', values', _, ran'⟩ := runs types admitted invoke r st values memory
    (Nat.le_trans last.size_le room) (by omega)
  refine ⟨r', ⟨x'.size⟩, ?_⟩
  have called := execInsts_call (n := st.fuel - (code.length + 1))
    { st with memory := x'.memory, fuel := st.fuel - code.length } (by dsimp only; omega)
    fun st => calls invoke r' st values'
  rw [execInsts_append, ran', List.length_append, List.length_singleton]
  refine called.trans ?_
  simp only [Bind.bind, EStateM.bind]
  cases invoke target vals { st with memory := x'.memory, fuel :=
    st.fuel - (code.length + 1) } <;> rfl

theorem calls_of_callPtr {func : FuncId} {args : List ValueId} {name : String} {out : ValueId}
    (goes : x.Goes s x')
    (ran : callPtr func args name x'.frame s x'.work = .ok (out, frame') w')
    (admitted : w'.code.types.Grows types) :
    x.Calls frame' types x'.memory (.function func) (args.map x'.values) := by
  obtain ⟨result, f₁, w₁, called, ran⟩ := of_bind_ok ran
  have admits : x'.Admits types := by
    cases called
    cases ran
    exact admitted
  obtain ⟨rfl, calls⟩ := calls_of_callBy goes called admits
    (callsAt_call types x'.point _ func args)
  cases ran
  exact calls

/-- Gets what stands in a slot of the object's table. -/
def slotCode (cls : DeclId) (this : ValueId) (slot : Nat) (count : Nat) :
    Emit (ValueId × TyId) := do
  let layout ← Compile.layoutOf cls
  let table ← loadField layout.record this 0 "vptr"
  let entry ← elemAddr table slot "vslot"
  let code ← Draft.load .ptr entry "vfn"
  let sig ← Compile.types (·.func (List.replicate (count + 1) .ptr) .ptr)
  return (code, sig)

theorem callSlot_eq (cls : DeclId) (this : ValueId) (slot : Nat) (values : List ValueId) :
    callSlot cls this slot values = (do
      let (code, sig) ← slotCode cls this slot values.length
      match ← Draft.callIndirect sig .ptr code (this :: values) "vcall" with
      | some r => return r
      | none => Draft.null) := by
  simp only [slotCode, bind_assoc, pure_bind]
  rfl

theorem slotCode_does {cls : DeclId} {this : ValueId} {slot o : Nat} {v : Value}
    (moment : Moment s x.work) (isThis : x.Knows this (address o))
    (holds : x.memory.TableHolds o slot v) (fits : slot < 0x80000000) (count : Nat) :
    Does s x (slotCode cls this slot count) fun result x' =>
      x'.Knows result.1 v ∧ x'.memory = x.memory := by
  obtain ⟨table, rest, object, entry⟩ := holds
  refine .lift_bind ((Compile.layoutOf_walks cls).ends moment) fun layout w₁ there₁ _ => ?_
  have moment₁ := moment.later there₁.later
  refine .bind (loadField_does layout.record "vptr" (x := x.later w₁) isThis.value object rfl
    (by simp)) ?_
  rintro tableId x₂ goes₂ ⟨isTable, memory₂, work₂⟩
  refine .bind (elemAddr_does _ "vslot" isTable) ?_
  rintro entryId x₃ goes₃ ⟨isEntry, memory₃, work₃⟩
  rw [Nat.min_eq_left (by omega)] at isEntry
  have isMemory₃ : x₃.memory = x.memory := memory₃.trans memory₂
  have loaded : x₃.memory.load (x₃.values entryId) = .ok v := by
    rw [isMemory₃, show x₃.values entryId = _ from isEntry.value]
    exact entry
  refine .write_bind (.load (p := x₃.point) .ptr "vfn" loaded) ?_
  rintro code p₄ goes₄ ⟨isCode, memory₄, -⟩
  have moment₄ : Moment s (x₃.moved p₄).work := by
    change Moment s x₃.work
    rw [work₃, work₂]
    exact moment₁
  refine .lift_bind ((Compile.func_walks _ _).ends moment₄) fun _ w₅ _ _ => ?_
  exact .pure ⟨isCode, memory₄.trans isMemory₃⟩

/-- A call through a slot calls what stands there, with the object first. -/
theorem calls_of_callSlot {cls : DeclId} {this out : ValueId} {slot o : Nat} {values : List ValueId}
    {func : FuncId} (moment : Moment s x.work) (isThis : x.Knows this (address o))
    (holds : x.memory.TableHolds o slot (.func func)) (fits : slot < 0x80000000)
    (inside : ∀ v ∈ values, v.raw < x.size)
    (ran : callSlot cls this slot values x.frame s x.work = .ok (out, frame') w')
    (admitted : w'.code.types.Grows types) :
    x.Calls frame' types x.memory (.function func) (address o :: values.map x.values) := by
  rw [callSlot_eq] at ran
  obtain ⟨⟨code, sig⟩, f₁, w₁, started, ran⟩ := of_bind_ok ran
  obtain ⟨x₁, rfl, rfl, goes, isCode, memory⟩ :=
    slotCode_does moment isThis holds fits _ _ _ _ started
  obtain ⟨result, f₂, w₂, called, ran⟩ := of_bind_ok ran
  have isTarget : (x₁.values code).callee = .ok (.function func) := by
    rw [show x₁.values code = _ from isCode.value]
    rfl
  have kept : (this :: values).map x₁.values = address o :: values.map x.values := by
    rw [List.map_cons, show x₁.values this = _ from (goes.knows isThis).value]
    refine congrArg _ (List.map_congr_left fun v member => ?_)
    exact goes.point.kept v (inside v member)
  have admits : x₁.Admits types := by
    cases called
    cases ran
    exact admitted
  obtain ⟨rfl, calls⟩ := calls_of_callBy goes called admits
    (callsAt_callIndirect types _ sig (this :: values) isTarget)
  cases ran
  rw [← memory, ← kept]
  exact calls

/-- The code that was written since a stage runs up to a call that runs a method on an object. -/
def RunsMethod (s : Setup) (x : Stage) (frame' : Frame) (w : Work) (im : Image) (m : DeclId)
    (this : Value) : Prop :=
  ∃ mem target vals, x.Calls frame' im.code.types mem target vals ∧
    RunsOn s w im m this mem target vals

/-! ## Reading methods -/

/-- A value whose type has no cell is its own reference. -/
theorem boxed_of_no_cell {v : Operand} (noCell : v.info.cell? = none) :
    boxed v = pure v.value := by
  unfold boxed
  rw [noCell]
  cases v.form <;> rfl

theorem boxed_of_instance {v : Operand} {cls : DeclId} (isInstance : v.info = .instanceOf cls) :
    boxed v = pure v.value :=
  boxed_of_no_cell (isInstance ▸ rfl)

/-- Reading a method of an object asks for its body and makes a closure. -/
theorem of_readProperty_ok {l : Lowering} {v value : Operand} {cls m : DeclId} {n : Name}
    {chain : List DeclId} {w : Work} {frame : Frame} (isInstance : v.info = .instanceOf cls)
    (isChain : s.program.classChain cls = .ok chain)
    (noGetter : s.program.findFunction n [.getter] chain = .ok none)
    (noField : ∀ field w₁, Compile.fieldRef v.info n s w ≠ .ok (some field) w₁)
    (found : s.program.findFunction n [.method] chain = .ok (some m))
    (ran : readProperty l v n frame s w = .ok (value, frame') w') :
    ∃ c closure w₁ w₂, Compile.fieldRef v.info n s w = .ok none w₁ ∧
      l.body (.function m) (some cls) [] s w₁ = .ok c w₂ ∧
      closureOf c m (some v.value) frame s w₂ = .ok (closure, frame') w' ∧
      value = closure.operand := by
  simp only [readProperty, toBoxed, boxed_of_instance isInstance, pure_bind, Operand.boxed,
    isInstance, readInstance] at ran
  obtain ⟨_, _, _, asked, ran⟩ := of_bind_ok ran
  obtain ⟨rfl, rfl, answer⟩ := of_asks_ok asked
  cases isChain.symm.trans answer
  obtain ⟨_, _, _, asked, ran⟩ := of_bind_ok ran
  obtain ⟨rfl, rfl, answer⟩ := of_asks_ok asked
  cases noGetter.symm.trans answer
  obtain ⟨field, _, w₁, lifted, ran⟩ := of_bind_ok ran
  obtain ⟨rfl, looked⟩ := of_lift_ok lifted
  rw [← isInstance] at looked
  cases field with
  | some field => exact absurd looked (noField field w₁)
  | none =>
    obtain ⟨_, _, _, asked, ran⟩ := of_bind_ok ran
    obtain ⟨rfl, rfl, answer⟩ := of_asks_ok asked
    cases found.symm.trans answer
    change boundMethod l ⟨v.value, .instanceOf cls, .boxed⟩ cls m frame s w₁ = _ at ran
    simp only [boundMethod, boxed, pure_bind] at ran
    obtain ⟨resolution, _, _, lifted, ran⟩ := of_bind_ok ran
    obtain ⟨rfl, resolved⟩ := of_lift_ok lifted
    cases resolved
    obtain ⟨f, _, _, asked, ran⟩ := of_bind_ok ran
    obtain ⟨rfl, rfl, _⟩ := of_asks_ok asked
    split at ran
    · obtain ⟨_, never⟩ := of_lift_ok ran
      cases never
    · obtain ⟨c, _, w₂, lifted, ran⟩ := of_bind_ok ran
      obtain ⟨rfl, compiled⟩ := of_lift_ok lifted
      obtain ⟨closure, _, _, made, ran⟩ := of_bind_ok ran
      cases ran
      exact ⟨c, closure, w₁, w₂, looked, compiled, made, rfl⟩

/-- Reading a method of an object gives a closure of the method with the object as its receiver. -/
theorem readProperty_binds {l : Lowering} {v : Operand} {cls m : DeclId} {n : Name}
    {chain : List DeclId} {val : Value} {j : Nat} (standard : s.runtime = startModule.1)
    (hl : l.Walks s) (moment : Moment s x.work) (isInstance : v.info = .instanceOf cls)
    (isChain : s.program.classChain cls = .ok chain)
    (noGetter : s.program.findFunction n [.getter] chain = .ok none)
    (noField : ∀ field w₁, Compile.fieldRef v.info n s x.work ≠ .ok (some field) w₁)
    (found : s.program.findFunction n [.method] chain = .ok (some m)) (called : x.CalledWith j)
    (isObject : x.Knows v.value val) :
    Does s x (readProperty l v n) fun value x' =>
      ∃ k, x'.Knows value.value (address k) ∧ Binds s x'.work m val x'.memory k := by
  intro value f w ran
  obtain ⟨c, closure, w₁, w₂, looked, compiled, made, rfl⟩ :=
    of_readProperty_ok isInstance isChain noGetter noField found ran
  obtain ⟨there₁, _⟩ := ((Compile.fieldRef_walks v.info n).ends moment).of_ok looked
  have moment₁ := moment.later there₁.later
  obtain ⟨there₂, _, bound⟩ := Compile.of_body_ok hl moment₁ compiled
  obtain ⟨_, key, _, _, recorded⟩ := (hl.body moment₁ (.function m) (some cls) []).of_ok compiled
  have goes : x.Goes s (x.later w₂) := ⟨there₁.trans there₂, rfl, .refl _⟩
  have called₂ : (x.later w₂).CalledWith j :=
    called.goes goes (.refl [] _) fun _ => List.not_mem_nil
  obtain ⟨x', rfl, rfl, goes', isClosure, e, fields, known, length, receiver, memory⟩ :=
    closureOf_does standard (moment.later goes.later) ⟨key, recorded⟩ bound called₂
      (goes.knows isObject) _ _ _ made
  have asked : AskedSince s w₁ x'.work (some cls) m c :=
    ⟨l, w₁, w₂, hl, moment₁, .refl _, compiled, goes'.later⟩
  refine ⟨x', rfl, rfl, goes.trans goes', _, isClosure, .mk rfl
    ⟨asked, goes'.later.extends.registry.declEnv _ _ bound, known, ?_, ?_, length, receiver⟩⟩
  · rw [memory]
    exact Memory.heap_push_lt _ (Memory.heap_push _ _)
  · have last := Memory.heap_push ((x.later w₂).memory.push (.agg fields))
      (.agg [.func c.func, address (x.later w₂).memory.heap.size])
    rwa [Memory.size_push, ← memory] at last

/-! ## Calling closures -/

end Emit

/-- What is known of a value that is called as a closure. -/
def Info.called? : Info → Option ClosureInfo
  | .closure known => some known
  | .any => some {}
  | _ => none

namespace Emit

variable {s : Setup} {x x' : Stage} {frame frame' : Frame} {w w' : Work} {l : Lowering}

/-- Writes the arguments to the environment of a closure, and gives what is known of the result. -/
def passToClosure (l : Lowering) (c : ClosureValue) (args : List Operand) : Emit Info := do
  let shape ← callShape c.known args.length
  let e ← Compile.env shape.env
  let env ← loadField (← Compile.runtime).closure c.ptr 1 "env"
  writeArgs l e env shape.params args
  return shape.ret

/-- A call of a closure passes the arguments and calls the function for closures. -/
theorem of_callValue_ok {stored result : Operand} {known : ClosureInfo} {args : List Operand}
    (isClosure : stored.info.called? = some known)
    (ran : callValue l stored args frame s w = .ok (result, frame') w') :
    ∃ ret out f₁ w₁, passToClosure l ⟨stored.value, known⟩ args frame s w = .ok (ret, f₁) w₁ ∧
      callPtr s.runtime.call [stored.value] "call" f₁ s w₁ = .ok (out, frame') w' := by
  have isCall : callValue l stored args = closureCall l ⟨stored.value, known⟩ args := by
    unfold Info.called? at isClosure
    split at isClosure <;> cases isClosure <;> rename_i isInfo <;>
      simp only [callValue, isInfo, boxed_of_no_cell (isInfo ▸ rfl : stored.info.cell? = none),
        pure_bind]
  rw [isCall, closureCall] at ran
  obtain ⟨shape, _, _, shaped, ran⟩ := of_bind_ok ran
  obtain ⟨e, _, _, isEnv, ran⟩ := of_bind_ok ran
  obtain ⟨_, _, _, isRuntime, ran⟩ := of_bind_ok ran
  cases isRuntime
  obtain ⟨env, _, _, loaded, ran⟩ := of_bind_ok ran
  obtain ⟨_, f₁, w₁, written, ran⟩ := of_bind_ok ran
  obtain ⟨out, _, _, called, ran⟩ := of_bind_ok ran
  cases ran
  refine ⟨shape.ret, out, f₁, w₁, ?_, called⟩
  rw [passToClosure, bind_of_ok shaped, bind_of_ok isEnv, bind_of_ok rfl, bind_of_ok loaded,
    bind_of_ok written]
  rfl

section

variable {final : Work} {im : Image} {m : DeclId}

/-- A call of a closure of a method runs the method on its receiver. -/
theorem runsMethod_of_closure {stored out : ValueId} {this : Value} {k : Nat}
    (standard : s.runtime = startModule.1) (apart : s.config.entryName ≠ closureCallName)
    (moment : Moment s final) (isCode : im.code = final.code) (later : Later s w' final)
    (ran : callPtr s.runtime.call [stored] "call" x.frame s x.work = .ok (out, frame') w')
    (isStored : x.Knows stored (address k)) (binds : Binds s final m this x.memory k) :
    RunsMethod s x frame' final im m this := by
  have calls := calls_of_callPtr (.refl x) ran (isCode ▸ later.extends.code.types)
  rw [List.map_singleton, show x.values stored = _ from isStored.value] at calls
  exact ⟨_, _, _, calls, binds.runsOn standard apart moment isCode⟩

/-! ## Calling bodies -/

/-- A new environment for a body, with the arguments and without the receiver. -/
def passToBody (l : Lowering) (c : CompiledFunction) (args : List Operand) :
    Emit (Environment × ValueId) := do
  let e ← Compile.env c.env
  let ptr ← Draft.alloc e.record "env"
  writeArgs l e ptr c.params args
  fillCaptures e ptr
  return (e, ptr)

/-- Puts the object into an environment and calls the body with it. -/
def enterBody (c : CompiledFunction) (e : Environment) (ptr : ValueId) (this : Option ValueId) :
    Emit ValueId := do
  fillReceiver e ptr this
  callPtr c.func [ptr] "call"

theorem of_callCompiled_ok {c : CompiledFunction} {this : Option ValueId} {args : List Operand}
    {result : Operand} (ran : callCompiled l c this args frame s w = .ok (result, frame') w') :
    ∃ e ptr out f₁ w₁, w.registry.env? c.env = some e ∧
      passToBody l c args frame s w = .ok ((e, ptr), f₁) w₁ ∧
      enterBody c e ptr this f₁ s w₁ = .ok (out, frame') w' := by
  have parts : callCompiled l c this args = (passToBody l c args >>= fun (e, ptr) => do
      return .boxed (← enterBody c e ptr this) c.ret) := by
    simp only [callCompiled, passToBody, enterBody, bind_assoc, pure_bind]
  rw [parts] at ran
  obtain ⟨⟨e, ptr⟩, f₁, w₁, passed, ran⟩ := of_bind_ok ran
  obtain ⟨out, _, _, entered, ran⟩ := of_bind_ok ran
  cases ran
  obtain ⟨e', _, _, lifted, rest⟩ := of_bind_ok passed
  obtain ⟨rfl, asked⟩ := of_lift_ok lifted
  obtain ⟨known, rfl⟩ := Compile.of_env_ok asked
  obtain ⟨_, _, _, _, rest⟩ := of_bind_ok rest
  obtain ⟨_, _, _, _, rest⟩ := of_bind_ok rest
  obtain ⟨_, _, _, _, rest⟩ := of_bind_ok rest
  cases rest
  exact ⟨e, ptr, out, f₁, w₁, known, passed, entered⟩

/-- Puts the object into an environment in the allocation `j`. -/
theorem fillReceiver_puts {e : Environment} {ptr given : ValueId} {v : Value} {fields : List Value}
    {j : Nat} (isPtr : x.Knows ptr (address j)) (cell : x.memory.heap[j]? = some (.agg fields))
    (length : fields.length = e.slots.length) (isGiven : x.Knows given v) :
    Does s x (fillReceiver e ptr (some given)) fun _ x' => ∃ fields',
      x'.memory.heap[j]? = some (.agg fields') ∧ fields'.length = e.slots.length ∧
      ∀ r, e.receiverSlot = some r → fields'[r]? = some v := by
  unfold fillReceiver
  split
  · rename_i none
    exact .pure ⟨fields, cell, length, fun r isSlot => by simp [none] at isSlot⟩
  · rename_i r isSlot
    obtain ⟨inside, _⟩ := List.findIdx?_eq_some_iff_getElem.mp isSlot
    rw [← length] at inside
    refine (storeField_does e.record isPtr.value cell inside).mono ?_
    rintro _ x' _ ⟨-, u, memory, isValue⟩
    obtain rfl : u = v := (isValue isGiven.inside).trans isGiven.value
    refine ⟨fields.set r u, ?_, by simpa using length, fun r' isSlot' => ?_⟩
    · rw [memory]
      exact Memory.heap_put (Memory.lt_of_heap cell) _
    · obtain rfl : r = r' := Option.some.inj (isSlot.symm.trans isSlot')
      exact List.getElem?_set_self inside

/-- A call of a body of a method runs the method on the object. -/
theorem runsMethod_of_body {cls : DeclId} {c : CompiledFunction} {e : Environment}
    {ptr given out : ValueId} {this : Value} {fields : List Value} {j : Nat}
    (compiled : CompiledFor s final cls m c) (bound : final.registry.declEnv? m = some c.env)
    (known : final.registry.env? c.env = some e) (isCode : im.code = final.code)
    (later : Later s w' final)
    (ran : enterBody c e ptr (some given) x.frame s x.work = .ok (out, frame') w')
    (isPtr : x.Knows ptr (address j)) (cell : x.memory.heap[j]? = some (.agg fields))
    (length : fields.length = e.slots.length) (isGiven : x.Knows given this) :
    RunsMethod s x frame' final im m this := by
  obtain ⟨_, _, _, filled, ran⟩ := of_bind_ok ran
  obtain ⟨x₁, rfl, rfl, goes, fields', cell', length', receiver⟩ :=
    fillReceiver_puts isPtr cell length isGiven _ _ _ filled
  have calls := calls_of_callPtr goes ran (isCode ▸ later.extends.code.types)
  rw [List.map_singleton, show x₁.values ptr = _ from (goes.knows isPtr).value] at calls
  refine ⟨_, _, _, calls, .mk 0 0 compiled bound known cell' length' receiver ?_⟩
  intro levels st memory _ _
  rw [← memory]
  cases invoke im levels (.function c.func) [address j] st <;> rfl

/-! ## Calling slots -/

/-- A call through a slot of an object's table runs the method that stands there on the object. -/
theorem runsMethod_of_slot {static cls d : DeclId} {n : Name} {t : MethodTable}
    {below : List DeclId}
    {given out : ValueId} {values : List ValueId} {vals : List Value} {i o : Nat}
    (standard : s.runtime = startModule.1) (apart : s.config.entryName ≠ closureCallName)
    (start : Moment s x.work) (moment : Moment s final) (isCode : im.code = final.code)
    (later : Later s w' final) (here : t.methods[i]? = some (n, d)) (compiles : s.Compiles t.root d)
    (fits : t.header + i < 0x80000000)
    (ran : callSlot static given (t.header + i) values x.frame s x.work = .ok (out, frame') w')
    (isGiven : x.Knows given (address o)) (isValues : List.Forall₂ x.Knows values vals)
    (equipped : Equipped s final t cls below o x.memory) :
    ∃ m', s.program.Dispatches n d below m' ∧ ∀ f', s.program.function m' = .ok f' →
      values.length = f'.params.length → RunsMethod s x frame' final im m' (address o) := by
  obtain ⟨m', c, func, dispatches, holds, serves⟩ := equipped i n d here compiles
  have inside : ∀ v ∈ values, v.raw < x.size := by
    intro v member
    obtain ⟨q, isHere⟩ := List.mem_iff_getElem?.mp member
    have inVals := (List.getElem?_eq_some_iff.mp isHere).1
    rw [isValues.length_eq] at inVals
    exact (Compile.of_forall₂ isValues isHere (List.getElem?_eq_getElem inVals)).inside
  have admitted : w'.code.types.Grows im.code.types := isCode ▸ later.extends.code.types
  have calls := calls_of_callSlot start isGiven holds fits inside ran admitted
  refine ⟨m', dispatches, fun f' isFunction length => ⟨_, _, _, calls, ?_⟩⟩
  exact serves.runsOn standard apart moment isCode isFunction (by simpa using length)

end

/-! ## Calling methods -/

end Emit

/-- Calls of the name on objects of the class go through the table: it is the name of a virtual
method of the class that the table belongs to. -/
def Source.Program.CallsVirtually (p : Program) (cls : DeclId) (n : Name) : Prop :=
  ∃ root methods, p.tableRoot cls = .ok (some root) ∧ p.namedVirtuals root = .ok methods ∧
    n ∈ methods.map (·.1)

namespace Emit

variable {s : Setup} {frame frame' : Frame} {w w' : Work} {l : Lowering}

/-- The slot of a method that is called virtually is the one that its table has for its name. -/
theorem of_virtualSlot_ok {cls m : DeclId} {d : Decl} {slot : Option Nat} (hl : l.Walks s)
    (moment : Moment s w) (isDecl : s.program.decl m = .ok d)
    (ran : virtualSlot l cls m frame s w = .ok (slot, frame') w') : frame = frame' ∧
      (slot = none → ¬ s.program.CallsVirtually cls d.name) ∧
      ∀ i, slot = some i → s.program.CallsVirtually cls d.name ∧ ∃ root t,
        s.program.tableRoot cls = .ok (some root) ∧ Compile.tableOf l root s w = .ok t w' ∧
        t.slotOf d.name = some i := by
  obtain ⟨root, _, _, asked, ran⟩ := of_bind_ok ran
  obtain ⟨rfl, rfl, isRoot⟩ := of_asks_ok asked
  cases root with
  | none =>
    cases ran
    refine ⟨rfl, fun _ => ?_, by simp⟩
    rintro ⟨root, _, isRoot', _⟩
    cases isRoot.symm.trans isRoot'
  | some root =>
    obtain ⟨_, _, _, asked, ran⟩ := of_bind_ok ran
    obtain ⟨rfl, rfl, isDecl'⟩ := of_asks_ok asked
    cases isDecl.symm.trans isDecl'
    obtain ⟨methods, _, _, asked, ran⟩ := of_bind_ok ran
    obtain ⟨rfl, rfl, virtuals⟩ := of_asks_ok asked
    split at ran
    · rename_i listed
      obtain ⟨method, member, named⟩ := List.any_eq_true.mp listed
      have isVirtual : s.program.CallsVirtually cls d.name :=
        ⟨root, methods, isRoot, virtuals, List.mem_map.mpr
          ⟨method, member, of_decide_eq_true named⟩⟩
      obtain ⟨t, _, _, lifted, ran⟩ := of_bind_ok ran
      obtain ⟨rfl, tabled⟩ := of_lift_ok lifted
      cases ran
      refine ⟨rfl, fun noSlot => ?_, fun i isSlot => ⟨isVirtual, root, t, isRoot, tabled, isSlot⟩⟩
      -- the table has the virtual methods of its class
      obtain ⟨_, sameRoot, fits, _⟩ := (Compile.tableOf_ends hl moment root).of_ok tabled
      have isMethods := fits.methods
      rw [sameRoot, virtuals] at isMethods
      cases isMethods
      rw [MethodTable.slotOf, Option.map_eq_none_iff, List.findIdx?_eq_none_iff] at noSlot
      exact absurd (noSlot method member) (by simpa using named)
    · rename_i unlisted
      cases ran
      refine ⟨rfl, fun _ => ?_, by simp⟩
      rintro ⟨_, _, isRoot', virtuals', listed⟩
      cases isRoot.symm.trans isRoot'
      cases virtuals.symm.trans virtuals'
      obtain ⟨method, member, named⟩ := List.mem_map.mp listed
      exact unlisted (List.any_eq_true.mpr ⟨method, member, by simpa using named⟩)

/-- A call of a method that is compiled enters a body for the arguments. -/
theorem of_callDecl_ok {this result : Operand} {cls m : DeclId} {args : List Operand}
    (ours : ∀ infos on, (s.resolver.resolve s.program m infos on).external = false)
    (isInstance : this.info = .instanceOf cls)
    (ran : callDecl l m (some ⟨this, cls⟩) args frame s w = .ok (result, frame') w') :
    ∃ c w₁, l.body (.function m) (some cls) (args.map (·.info)) s w = .ok c w₁ ∧
      callCompiled l c (some this.value) args frame s w₁ = .ok (result, frame') w' := by
  obtain ⟨f, _, _, asked, ran⟩ := of_bind_ok ran
  obtain ⟨rfl, rfl, _⟩ := of_asks_ok asked
  obtain ⟨resolution, _, _, lifted, ran⟩ := of_bind_ok ran
  obtain ⟨rfl, resolved⟩ := of_lift_ok lifted
  cases resolved
  rw [if_neg (by simp [ours])] at ran
  split at ran
  · obtain ⟨_, never⟩ := of_lift_ok ran
    cases never
  · obtain ⟨c, _, w₁, lifted, ran⟩ := of_bind_ok ran
    obtain ⟨rfl, compiled⟩ := of_lift_ok lifted
    simp only [receiverValue, boxed_of_instance isInstance, pure_bind] at ran
    exact ⟨c, w₁, compiled, ran⟩

/-- Converts the arguments of a call through a slot. -/
def passToSlot (l : Lowering) (f : FunctionDecl) (c : CompiledFunction) (args : List Operand) :
    Emit (List ValueId) :=
  f.params.zipIdx.mapM fun (_, i) => l.argument args[i]? (c.params[i]?.getD .any)

theorem passToSlot_walks (hl : l.Walks s) (f : FunctionDecl) (c : CompiledFunction)
    (args : List Operand) : Walks s (passToSlot l f c args) := .mapM (fun _ => hl.argument _ _) _

/-- A call through a slot converts the arguments first. -/
theorem of_callThrough_ok {this result : Operand} {cls cls' : DeclId} {f : FunctionDecl}
    {c : CompiledFunction} {slot : Nat} {args : List Operand}
    (isInstance : this.info = .instanceOf cls')
    (ran : callThrough l this cls f c slot args frame s w = .ok (result, frame') w') :
    ∃ values out f₁ w₁, passToSlot l f c args frame s w = .ok (values, f₁) w₁ ∧
      values.length = f.params.length ∧
      callSlot cls this.value slot values f₁ s w₁ = .ok (out, frame') w' := by
  simp only [callThrough, boxed_of_instance isInstance, pure_bind] at ran
  obtain ⟨values, f₁, w₁, passed, ran⟩ := of_bind_ok ran
  obtain ⟨out, _, _, called, ran⟩ := of_bind_ok ran
  cases ran
  exact ⟨values, out, f₁, w₁, passed, by simpa using (of_mapM_ok passed).length_eq.symm, called⟩

end Emit

/-! ## Instances -/

/-- No method of the name is supplied from outside. -/
def Setup.CompilesAll (s : Setup) (n : Name) : Prop :=
  ∀ m d infos on, s.program.decl m = .ok d → Program.isMethod n d →
    (s.resolver.resolve s.program m infos on).external = false

/-- An object of a class with a table: the class comes to an end, the virtual methods have different
names and are the first of their names, and the object has what serves them. -/
structure Instance (s : Setup) (w : Work) (cls : DeclId) (chain : List DeclId) (t : MethodTable)
    (o : Nat) (mem : Memory) : Prop where
  isChain : s.program.classChain cls = .ok chain
  ends : s.program.EndsAtTop chain
  isRoot : s.program.tableRoot cls = .ok (some t.root)
  recorded : w.tables.get? t.root = some t
  distinct : (t.methods.map (·.1)).Nodup
  first : ∀ n d, (n, d) ∈ t.methods → s.program.FirstMethod n [t.root] d
  fits : t.header + t.methods.length ≤ 0x80000000
  equipped : Equipped s w t cls (chain.takeWhile (· ≠ t.root)) o mem

theorem takeWhile_ne {a : DeclId} {before after : List DeclId}
    (distinct : (before ++ a :: after).Nodup) :
    (before ++ a :: after).takeWhile (· ≠ a) = before := by
  rw [List.takeWhile_append_of_pos, List.takeWhile_cons_of_neg (by simp), List.append_nil]
  intro b member
  exact decide_eq_true ((List.nodup_append.mp distinct).2.2 b member a List.mem_cons_self)

namespace Instance

variable {s : Setup} {w : Work} {cls static d m m' : DeclId} {chain above : List DeclId}
  {t : MethodTable} {n : Name} {o : Nat} {mem : Memory}

/-- A table of a class above is the table of the object. -/
theorem root_eq (h : Instance s w cls chain t o mem) (inside : static ∈ chain) {root : DeclId}
    (isRoot : s.program.tableRoot static = .ok (some root)) : root = t.root := by
  obtain ⟨before, above, rfl, isAbove⟩ := Program.classChain_suffix h.isChain h.ends inside
  exact (Program.tableRoot_of_base h.isChain isAbove h.isRoot isRoot).symm

/-- Where no class below declares the method, calls reach what the class above finds. -/
theorem reaches_found (h : Instance s w cls chain t o mem) (inside : static ∈ chain)
    (isRoot : s.program.tableRoot static = .ok (some t.root))
    (isAbove : s.program.classChain static = .ok above) (found : s.program.FirstMethod n above m)
    (none : ∀ c ∈ chain.takeWhile (· ≠ static), ¬ s.program.DeclaresMethod c n)
    (inTable : (n, d) ∈ t.methods)
    (dispatches : s.program.Dispatches n d (chain.takeWhile (· ≠ t.root)) m') : m' = m := by
  obtain ⟨before, above', rfl, line⟩ :=
    (Program.lineage_of_classChain h.isChain h.ends).suffix inside
  obtain rfl : above = above' := Except.ok.inj (isAbove.symm.trans line.classChain)
  have distinct := (Program.lineage_of_classChain h.isChain h.ends).nodup
  obtain ⟨_, _, isChain, inChain, _⟩ := Program.tableRoot_spec isRoot
  cases isChain.symm.trans isAbove
  -- the chain goes from the class of the object over the static one to that of the table
  have below : (before ++ above).takeWhile (· ≠ static) = before := by
    cases line with
    | cons => exact takeWhile_ne distinct
  obtain ⟨middle, after, rfl⟩ := List.append_of_mem inChain
  rw [← List.append_assoc] at distinct dispatches
  rw [takeWhile_ne distinct] at dispatches
  rw [below] at none
  have first := h.first n d inTable
  rcases dispatches with isFirst | ⟨noneBelow, rfl⟩
  · rw [Program.firstMethod_append_iff none] at isFirst
    exact (isFirst.append _).unique found
  · have further := first.append after
    have noneBetween : ∀ c ∈ middle, ¬ s.program.DeclaresMethod c n :=
      fun c member => noneBelow c (by simp [member])
    rw [List.singleton_append, ← Program.firstMethod_append_iff noneBetween] at further
    exact further.unique found

end Instance

theorem Source.Program.FirstMethod.isMethod {p : Program} {n : Name} {classes : List DeclId}
    {m : DeclId} (h : p.FirstMethod n classes m) :
    ∃ d, p.decl m = .ok d ∧ Program.isMethod n d := by
  induction h with
  | here _ _ _ isDecl isMethod => exact ⟨_, isDecl, isMethod⟩
  | above _ _ ih => exact ih

theorem MethodTable.of_slotOf {t : MethodTable} {n : Name} {slot : Nat}
    (h : t.slotOf n = some slot) : ∃ i d, t.methods[i]? = some (n, d) ∧ slot = t.header + i := by
  obtain ⟨i, found, rfl⟩ := Option.map_eq_some_iff.mp h
  obtain ⟨inside, same, _⟩ := List.findIdx?_eq_some_iff_getElem.mp found
  obtain rfl : t.methods[i].1 = n := of_decide_eq_true same
  exact ⟨i, t.methods[i].2, List.getElem?_eq_getElem inside, Nat.add_comm _ _⟩

namespace Emit

/-- What a call of a method runs, on an object of a class and the classes below it. If it was
compiled as a call of a body, the method; if as a call through a slot, what calls of the name reach
on the object, which is the method too unless a class below declares it again. -/
inductive CallRuns (s : Setup) (l : Lowering) (final : Work) (im : Image)
    (cls m : DeclId) (n : Name)
    (this : Operand) (args : List ExprId) (frame : Frame) (w : Work) (frame' : Frame) : Prop where
  | body {operands : List Operand} {c : CompiledFunction} {e : Environment} {ptr : ValueId}
    {f₀ f₁ : Frame} {w₀ w₁ w₂ : Work} (direct : ¬ s.program.CallsVirtually cls n)
    (evaluated : l.exprs args frame s w = .ok (operands, f₀) w₀)
    (passed : passToBody l c operands f₀ s w₁ = .ok ((e, ptr), f₁) w₂)
    (runs : ∀ (x : Stage) (val : Value) (fields : List Value) (j : Nat), x.frame = f₁ →
      x.work = w₂ → x.Knows ptr (address j) → x.memory.heap[j]? = some (.agg fields) →
      fields.length = e.slots.length → x.Knows this.value val →
      RunsMethod s x frame' final im m val) :
    CallRuns s l final im cls m n this args frame w frame'
  | slot {operands : List Operand} {f : FunctionDecl} {c : CompiledFunction} {values : List ValueId}
    {f₀ f₁ : Frame} {w₀ w₁ w₂ : Work} (isVirtual : s.program.CallsVirtually cls n)
    (evaluated : l.exprs args frame s w = .ok (operands, f₀) w₀)
    (isFunction : s.program.function m = .ok f)
    (passed : passToSlot l f c operands f₀ s w₁ = .ok (values, f₁) w₂)
    (runs : ∀ (x : Stage) (cls' : DeclId) (chain : List DeclId) (t : MethodTable) (o : Nat)
      (vals : List Value), x.frame = f₁ → x.work = w₂ → Instance s final cls' chain t o x.memory →
      cls ∈ chain → x.Knows this.value (address o) → List.Forall₂ x.Knows values vals →
      ∃ d m', (n, d) ∈ t.methods ∧ s.program.Dispatches n d (chain.takeWhile (· ≠ t.root)) m' ∧
        ((∀ c ∈ chain.takeWhile (· ≠ cls), ¬ s.program.DeclaresMethod c n) → m' = m) ∧
        ∀ f', s.program.function m' = .ok f' → f'.params.length = f.params.length →
          RunsMethod s x frame' final im m' (address o)) :
    CallRuns s l final im cls m n this args frame w frame'

/-- By how the call was compiled. -/
theorem callFound_runs {s : Setup} {l : Lowering} {final : Work} {im : Image} {cls m : DeclId}
    {n : Name} {chain : List DeclId} {this result : Operand} {args : List ExprId}
    {frame frame' : Frame} {w w' : Work} (standard : s.runtime = startModule.1)
    (apart : s.config.entryName ≠ closureCallName) (hl : l.Walks s) (moment : Moment s w)
    (grounded : frame.Grounded w) (isChain : s.program.classChain cls = .ok chain)
    (found : s.program.FirstMethod n chain m) (ours : s.CompilesAll n)
    (isInstance : this.info = .instanceOf cls)
    (ran : callFound l this n args (some (cls, m)) frame s w = .ok (result, frame') w')
    (later : Later s w' final) (isCode : im.code = final.code) :
    CallRuns s l final im cls m n this args frame w frame' := by
  obtain ⟨decl, isDecl, isMethod⟩ := found.isMethod
  have named : decl.name = n := by
    simp only [Program.isMethod, Bool.and_eq_true, decide_eq_true_eq] at isMethod
    exact isMethod.1
  obtain ⟨operands, f₀, w₀, evaluated, ran⟩ := of_bind_ok ran
  obtain ⟨there₀, onward₀⟩ := ((hl.exprs args).ends moment grounded).of_ok evaluated
  have moment₀ := moment.later there₀.later
  obtain ⟨slot, _, w₁, looked, ran⟩ := of_bind_ok ran
  obtain ⟨there₁, _⟩ := ((virtualSlot_walks hl cls m).ends moment₀ onward₀.grounded).of_ok looked
  have moment₁ := moment₀.later there₁.later
  have grounded₁ := onward₀.grounded.later there₁.later
  obtain ⟨rfl, direct, slotted⟩ := of_virtualSlot_ok hl moment₀ isDecl looked
  rw [named] at direct slotted
  cases slot with
  | none =>
    obtain ⟨c, w₂, compiled, ran⟩ := of_callDecl_ok
      (fun infos on => ours m decl infos on isDecl isMethod)
      isInstance ran
    obtain ⟨there₂, isCompiled, bound⟩ := Compile.of_body_ok hl moment₁ compiled
    have rest := (((callCompiled_walks hl c _ operands).ends (moment₁.later there₂.later)
      (grounded₁.later there₂.later)).of_ok ran).1.later.trans later
    obtain ⟨e, ptr, out, f₁, w₃, known, passed, entered⟩ := of_callCompiled_ok ran
    refine .body (direct rfl) evaluated passed ?_
    rintro x val fields j rfl rfl isPtr cell length isObject
    exact runsMethod_of_body (isCompiled.later rest) (rest.extends.registry.declEnv _ _ bound)
      (rest.extends.registry.env _ _ known) isCode later entered isPtr cell length isObject
  | some slot =>
    obtain ⟨isVirtual, root, t, isRoot, tabled, isSlot⟩ := slotted slot rfl
    obtain ⟨_, rfl, _, _, recorded⟩ := (Compile.tableOf_ends hl moment₀ root).of_ok tabled
    obtain ⟨f, c, w₂, isFunction, compiled, ran⟩ :=
      of_virtualCall_ok (ours m decl _ _ isDecl isMethod) ran
    obtain ⟨there₂, _⟩ := Compile.of_body_ok hl moment₁ compiled
    have moment₂ := moment₁.later there₂.later
    have grounded₂ := grounded₁.later there₂.later
    obtain ⟨there₃, _⟩ := ((callThrough_walks hl _ _ _ _ _ _).ends moment₂ grounded₂).of_ok ran
    obtain ⟨values, out, f₁, w₃, passed, length, called⟩ := of_callThrough_ok isInstance ran
    have moment₃ := moment₂.later
      (((passToSlot_walks hl f c operands).ends moment₂ grounded₂).of_ok passed).1.later
    have rest : Later s w₁ final := (there₂.trans there₃).later.trans later
    refine .slot isVirtual evaluated isFunction passed ?_
    rintro x cls' chain' t' o vals rfl rfl isObject inside isThis isValues
    -- the table of the static class is that of the object
    obtain rfl : t = t' := by
      have sameRoot := isObject.root_eq inside isRoot
      have recorded' := rest.table recorded
      rw [sameRoot, isObject.recorded] at recorded'
      exact (Option.some.inj recorded').symm
    obtain ⟨i, d, here, rfl⟩ := MethodTable.of_slotOf isSlot
    have inTable := List.mem_of_getElem? here
    obtain ⟨_, isDecl', isMethod'⟩ := (isObject.first _ d inTable).isMethod
    have inside' := (List.getElem?_eq_some_iff.mp here).1
    have fits := isObject.fits
    obtain ⟨m', dispatches, runs⟩ := runsMethod_of_slot standard apart moment₃
      (moment₁.later rest) isCode later here (ours d _ _ _ isDecl' isMethod') (by omega) called
      isThis isValues isObject.equipped
    refine ⟨d, m', inTable, dispatches, fun none => ?_, fun f' isFunction' sameCount => ?_⟩
    · exact isObject.reaches_found inside isRoot isChain found none inTable dispatches
    · exact runs f' isFunction' (length.trans sameCount.symm)

end Emit

/-- Methods that are read and methods that are called. A method that is compiled is found for a
class, and no getter and no field has its name. Reading it from an object of the class or of one
below gives a closure of the method that was found, with the object as its receiver. Calling such a
closure, wherever it was stored, passes the arguments and runs that method on the object. Calling
the method of the object runs the same, where the name is not called virtually; where it is, it runs
what the classes of the object declare first, and that is the method that was found unless a class
below the one it was found for declares it again. -/
theorem method_value_runs_called (p : Program) (r : Resolver) (config : Config)
    (depth depth' depth'' : Nat) {cls m : DeclId} {n : Name} {chain : List DeclId} {x : Stage}
    {v value stored result this result' : Operand} {known : ClosureInfo} {val : Value} {j : Nat}
    {args : List Operand} {exprs : List ExprId} {reading' valued valued' called called' : Frame}
    {wr' wv wv' wc wc' : Work} (apart : config.entryName ≠ closureCallName)
    (isChain : p.classChain cls = .ok chain)
    (found : p.findFunction n [.method] chain = .ok (some m))
    (noGetter : p.findFunction n [.getter] chain = .ok none)
    (ours : Setup.CompilesAll (.of p r config) n)
    (begun : Moment (.of p r config) x.work) (isObject : v.info = .instanceOf cls)
    (noField : ∀ field w, Compile.fieldRef v.info n (.of p r config) x.work ≠ .ok (some field) w)
    (around : x.CalledWith j) (isVal : x.Knows v.value val)
    (read : Emit.readProperty (.ofDepth depth) v n x.frame (.of p r config) x.work =
      .ok (value, reading') wr')
    (reached : Moment (.of p r config) wv) (grounded : valued.Grounded wv)
    (isClosure : stored.info.called? = some known)
    (valueCall : Emit.callValue (.ofDepth depth') stored args valued (.of p r config) wv =
      .ok (result, valued') wv')
    (arrived : Moment (.of p r config) wc) (standing : called.Grounded wc)
    (isReceiver : this.info = .instanceOf cls)
    (call : Emit.callFound (.ofDepth depth'') this n exprs (some (cls, m)) called
    (.of p r config) wc =
      .ok (result', called') wc') :
    (∃ x' k, x'.frame = reading' ∧ x'.work = wr' ∧ x.Goes (.of p r config) x' ∧
      x'.Knows value.value (address k) ∧ Binds (.of p r config) wr' m val x'.memory k) ∧
    ∀ (final : Work) (im : Image), Later (.of p r config) wv' final →
      Later (.of p r config) wc' final → im.code = final.code →
      (∃ ret f₁ w₁, Emit.passToClosure (.ofDepth depth') ⟨stored.value, known⟩ args valued
          (.of p r config) wv = .ok (ret, f₁) w₁ ∧
        ∀ (y : Stage) (object : Value) (k : Nat), y.frame = f₁ → y.work = w₁ →
          y.Knows stored.value (address k) → Binds (.of p r config) final m object y.memory k →
          Emit.RunsMethod (.of p r config) y valued' final im m object) ∧
      Emit.CallRuns (.of p r config) (.ofDepth depth'') final im cls m n this exprs called wc
        called' := by
  have walks (depth : Nat) := Lowering.ofDepth_walks (s := .of p r config) depth
  constructor
  · obtain ⟨x', rfl, rfl, goes, k, isValue, binds⟩ :=
      Emit.readProperty_binds rfl (walks depth) begun
      isObject isChain noGetter noField found around isVal _ _ _ read
    exact ⟨x', k, rfl, rfl, goes, isValue, binds⟩
  intro final im later later' isCode
  have there := ((Emit.callValue_walks (walks depth') stored args).ends reached grounded).of_ok
    valueCall
  have moment : Moment (.of p r config) final := (reached.later there.1.later).later later
  constructor
  · obtain ⟨ret, out, f₁, w₁, passed, ran⟩ := Emit.of_callValue_ok isClosure valueCall
    refine ⟨ret, f₁, w₁, passed, ?_⟩
    rintro y object k rfl rfl isStored binds
    exact Emit.runsMethod_of_closure rfl apart moment isCode later ran isStored binds
  · exact Emit.callFound_runs rfl apart (walks depth'') arrived standing isChain
      (Program.findFunction_first chain found) ours isReceiver call later' isCode

/-- A class with a virtual method, and one below it that overrides the method. The method is called
on an instance of the latter that is known as one of the former, and it is read from the instance
and called after that. -/
@[irreducible] def boundOverride : Program := (Id.run <| StateT.run (do
  let base ← Construction.classDecl "Base" none { table := true }
  let sub ← Construction.classDecl "Sub" (some base) .none
  let answering (b : Bool) : Building (List StmtId) := do
    return [← Construction.stmt (.ret (some (← Construction.expr (.bool b))))]
  discard <| Construction.method base "m" [] (some .boolean) (← answering false) { virtual := true }
  discard <| Construction.method sub "m" [] (some .boolean) (← answering true) { override := true }
  Construction.pushEntry (← Construction.stmt (.classDecl base))
  Construction.pushEntry (← Construction.stmt (.classDecl sub))
  let declare (name : String) (ty : Option TypeId) (value : ExprId) : Building Unit := do
    let (declared, _) ← Construction.bind name ty (some value)
    Construction.pushEntry declared
  let type ← Construction.instanceType base
  declare "r" (some type) (← Construction.expr (.construct sub []))
  declare "a" none (← Construction.methodCall (← Construction.ident "r") "m" [])
  declare "f" none (← Construction.prop (← Construction.ident "r") "m")
  declare "b" none (← Construction.expr (.call (← Construction.ident "f") [] none)) :
    Building Unit) {}).2.program

/-- Reads the method from a given instance of the class below. -/
def boundOverrideRead : Emit Operand :=
  Emit.readProperty (.ofDepth 20) (.boxed ⟨0⟩ (.instanceOf ⟨1⟩)) ⟨3⟩

/-- Calls a given value. -/
def boundOverrideValueCall : Emit Operand := Emit.callValue (.ofDepth 20) (.boxed ⟨0⟩ .any) []

/-- Calls the method of a given instance. -/
def boundOverrideCall : Emit Operand :=
  Emit.callFound (.ofDepth 20) (.boxed ⟨0⟩ (.instanceOf ⟨1⟩)) ⟨3⟩ [] (some (⟨1⟩, ⟨3⟩))

/-- The state once the method is read. -/
def boundOverrideReadWork : Work :=
  Compile.endOf (boundOverrideRead givenObject) (.of boundOverride .ambient {})
    (boundOverride.installedWork 2 ⟨0⟩ ⟨1⟩)

/-- The state once the value is called. -/
def boundOverrideValueWork : Work :=
  Compile.endOf (boundOverrideValueCall givenObject) (.of boundOverride .ambient {})
    boundOverrideReadWork

/-- The state once the method is called. -/
def boundOverrideWork : Work :=
  Compile.endOf (boundOverrideCall givenObject) (.of boundOverride .ambient {})
    boundOverrideValueWork

theorem boundOverride_reached :
    Reaches (.of boundOverride .ambient {}) (boundOverride.installedWork 2 ⟨0⟩ ⟨1⟩)
      boundOverrideReadWork ∧
    Reaches (.of boundOverride .ambient {}) boundOverrideReadWork boundOverrideValueWork ∧
    Reaches (.of boundOverride .ambient {}) boundOverrideValueWork boundOverrideWork := by
  have walks := Lowering.ofDepth_walks (s := .of boundOverride .ambient {}) 20
  have reached := boundOverride.installedWork_reached 2 ⟨0⟩ ⟨1⟩
  have read : Reaches (.of boundOverride .ambient {}) _ boundOverrideReadWork :=
    ((Emit.readProperty_walks walks _ _).ends reached.later (by rintro _ ⟨⟩)).reaches
  have valueCalled : Reaches (.of boundOverride .ambient {}) _ boundOverrideValueWork :=
    ((Emit.callValue_walks walks _ _).ends (reached.trans read).later (by rintro _ ⟨⟩)).reaches
  have called : Reaches (.of boundOverride .ambient {}) _ boundOverrideWork :=
    ((Emit.callFound_walks walks _ _ _ _).ends ((reached.trans read).trans valueCalled).later
      (by rintro _ ⟨⟩)).reaches
  exact ⟨read, valueCalled, called⟩

/-- An instance of the class below, in the first allocation. -/
theorem boundOverride_instance : ∃ t mem, Instance (.of boundOverride .ambient {}) boundOverrideWork
    ⟨1⟩ [⟨1⟩, ⟨0⟩] t 0 mem := by
  have walks := Lowering.ofDepth_walks (s := .of boundOverride .ambient {}) 20
  obtain ⟨t, tabled, isTable⟩ := Compile.of_gives
    (show Compile.gives (Compile.tableOf (.ofDepth 20) ⟨0⟩)
    (.of boundOverride .ambient {}) (boundOverride.declaredWork 2)
    (fun t => decide (t.methods = [(⟨3⟩, ⟨2⟩)] ∧ t.header = 4)) by decide +kernel)
  obtain ⟨methods, header⟩ := of_decide_eq_true isTable
  obtain ⟨⟨_, frame'⟩, installed, numbered⟩ := Compile.of_gives (show Compile.gives
    (Emit.installTable (.ofDepth 20) ⟨0⟩ ⟨1⟩ givenObject) (.of boundOverride .ambient {})
    (boundOverride.laidOutWork 2 ⟨0⟩ ⟨1⟩) (fun r => decide (0 < r.2.draft.values.size ∧
      r.2.draft.values.size ≤ 0x100000000)) by decide +kernel)
  obtain ⟨room, numbered⟩ := of_decide_eq_true numbered
  have laidOut : ((boundOverride.laidOutWork 2 ⟨0⟩ ⟨1⟩).layouts.get? ⟨1⟩).isSome := by
    decide +kernel
  obtain ⟨layout, isLayout⟩ := Option.isSome_iff_exists.mp laidOut
  have notYet : (boundOverride.declaredWork 2).tables.get? ⟨0⟩ = none := by decide +kernel
  obtain ⟨sameRoot, -, functions, complete⟩ := Compile.tableOf_complete rfl walks
    (boundOverride.declaredWork_reached 2) rfl notYet tabled
  have isRoot : boundOverride.tableRoot ⟨1⟩ = .ok (some t.root) := by
    rw [sameRoot]
    decide +kernel
  have isChain : boundOverride.classChain ⟨1⟩ = .ok [⟨1⟩, ⟨0⟩] := by decide +kernel
  have distinct : (t.methods.map (·.1)).Nodup := by simp [methods]
  obtain ⟨read, valueCalled, called⟩ := boundOverride_reached
  have later := ((read.trans valueCalled).trans called).later
  have complete' := complete.later (((boundOverride.laidOutWork_since 2 ⟨0⟩ ⟨1⟩).2.trans
    (boundOverride.installedWork_since 2 ⟨0⟩ ⟨1⟩)).later.trans later)
  have isCode : (⟨boundOverrideWork.code, #[]⟩ : Image).code = boundOverrideWork.code := rfl
  obtain ⟨_, mem, _, _, _, equipped⟩ := Emit.installTable_equips
    rfl walks (boundOverride.laidOutWork_reached 2 ⟨0⟩ ⟨1⟩) (by rintro _ ⟨⟩)
    (show givenObject.draft.Open ⟨0⟩ from ⟨rfl, _, rfl, rfl⟩) isRoot isChain distinct
      isLayout installed
    numbered complete' later isCode (by simp [givenRegisters]) (newInstance_given _ layout room) rfl
  have first : boundOverride.FirstMethod ⟨3⟩ [⟨0⟩] ⟨2⟩ := by
    have found : boundOverride.findFunction ⟨3⟩ [.method] [⟨0⟩] =
      .ok (some ⟨2⟩) := by decide +kernel
    exact Program.findFunction_first _ found
  refine ⟨t, mem, isChain, by decide +kernel, isRoot, complete'.recorded, distinct, ?_,
    by simp [methods, header], equipped⟩
  intro n d listed
  rw [methods] at listed
  cases List.mem_singleton.mp listed
  rw [sameRoot]
  exact first

/-- A method that is read from an instance of the class that declares it: the closure, the call of a
value that holds it, and the call of the method run the same. -/
theorem method_value_runs_called_boundOverride : ∃ value result result' reading' valued' called',
    boundOverrideRead givenObject (.of boundOverride .ambient {})
      (boundOverride.installedWork 2 ⟨0⟩ ⟨1⟩) = .ok (value, reading') boundOverrideReadWork ∧
    boundOverrideValueCall givenObject (.of boundOverride .ambient {}) boundOverrideReadWork =
      .ok (result, valued') boundOverrideValueWork ∧
    boundOverrideCall givenObject (.of boundOverride .ambient {}) boundOverrideValueWork =
      .ok (result', called') boundOverrideWork ∧
    (∃ (x : Stage) (k : Nat), x.frame = reading' ∧ x.Knows value.value (address k) ∧
      Binds (.of boundOverride .ambient {}) boundOverrideReadWork ⟨3⟩ (address 0) x.memory k) ∧
    (∃ y, Emit.RunsMethod (.of boundOverride .ambient {}) y valued' boundOverrideWork
      ⟨boundOverrideWork.code, #[]⟩ ⟨3⟩ (address 0)) ∧
    ∃ z, Emit.RunsMethod (.of boundOverride .ambient {}) z called' boundOverrideWork
      ⟨boundOverrideWork.code, #[]⟩ ⟨3⟩ (address 0) := by
  have reached := boundOverride.installedWork_reached 2 ⟨0⟩ ⟨1⟩
  obtain ⟨there₁, there₂, there₃⟩ := boundOverride_reached
  obtain ⟨t, mem, isInstance⟩ := boundOverride_instance
  obtain ⟨⟨value, reading'⟩, read, _⟩ := Compile.of_gives (show Compile.gives
    (boundOverrideRead givenObject) (.of boundOverride .ambient {})
    (boundOverride.installedWork 2 ⟨0⟩ ⟨1⟩) (fun _ => true) by decide +kernel)
  obtain ⟨⟨result, valued'⟩, valueCall, _⟩ := Compile.of_gives (show Compile.gives
    (boundOverrideValueCall givenObject) (.of boundOverride .ambient {}) boundOverrideReadWork
    (fun _ => true) by decide +kernel)
  obtain ⟨⟨result', called'⟩, call, _⟩ := Compile.of_gives (show Compile.gives
    (boundOverrideCall givenObject) (.of boundOverride .ambient {}) boundOverrideValueWork
    (fun _ => true) by decide +kernel)
  have found : boundOverride.findFunction ⟨3⟩ [.method] [⟨1⟩, ⟨0⟩] = .ok (some ⟨3⟩) := by
    decide +kernel
  have noGetter : boundOverride.findFunction ⟨3⟩ [.getter] [⟨1⟩, ⟨0⟩] =
    .ok none := by decide +kernel
  have ours : Setup.CompilesAll (.of boundOverride .ambient {}) ⟨3⟩ := by
    have all : ∀ i < boundOverride.decls.size, Resolver.isAmbient boundOverride ⟨i⟩ = false := by
      decide +kernel
    rintro ⟨i⟩ d _ _ isDecl _
    simp only [Setup.of, Program.decl] at isDecl
    split at isDecl
    · rename_i there
      exact all i (Array.getElem?_eq_some_iff.mp there).1
    · cases isDecl
  obtain ⟨field, looked, isNone⟩ := Compile.of_gives (show Compile.gives
    (Compile.fieldRef (.instanceOf ⟨1⟩) ⟨3⟩) (.of boundOverride .ambient {})
    (boundOverride.installedWork 2 ⟨0⟩ ⟨1⟩) (·.isNone) by decide +kernel)
  have isOpen : givenObject.draft.Open ⟨0⟩ := ⟨rfl, _, rfl, rfl⟩
  have inside : 0 < givenObject.draft.values.size := by decide
  let x : Stage :=
    ⟨boundOverride.installedWork 2 ⟨0⟩ ⟨1⟩, givenObject, fun _ => address 0, mem, ⟨0⟩, isOpen⟩
  obtain ⟨⟨x', k, isFrame, _, _, isValue, binds⟩, runs⟩ := method_value_runs_called boundOverride
    .ambient {} 20 20 20 (x := x) (j := 0) (by decide) isInstance.isChain found noGetter ours
    reached.later rfl (fun field' w looked' => by
      cases looked.symm.trans looked'
      cases isNone)
    (by rintro _ ⟨⟩) ⟨inside, rfl⟩ read (reached.trans there₁).later (by rintro _ ⟨⟩) rfl valueCall
    ((reached.trans there₁).trans there₂).later (by rintro _ ⟨⟩) rfl call
  obtain ⟨⟨_, f₁, w₁, passed, valueRuns⟩, callRuns⟩ :=
    runs boundOverrideWork ⟨boundOverrideWork.code, #[]⟩ there₃.later .same rfl
  refine ⟨value, result, result', reading', valued', called', read, valueCall, call,
    ⟨x', k, isFrame, isValue, binds⟩, ?_, ?_⟩
  · -- the body goes on in its first block once the arguments, of which there are none, are passed
    obtain ⟨⟨_, f₁'⟩, passed', test⟩ := Compile.of_gives (show Compile.gives
      (Emit.passToClosure (.ofDepth 20) ⟨⟨0⟩, {}⟩ [] givenObject) (.of boundOverride .ambient {})
      boundOverrideReadWork (fun r => decide (r.2.draft.current = some ⟨0⟩ ∧
        r.2.draft.blocks[0]?.map (·.exit.isNone) = some true ∧ 0 < r.2.draft.values.size))
      by decide +kernel)
    have same := passed.symm.trans passed'
    simp only [EStateM.Result.ok.injEq, Prod.mk.injEq] at same
    obtain ⟨⟨-, rfl⟩, -⟩ := same
    obtain ⟨here, unclosed, inside'⟩ := of_decide_eq_true test
    obtain ⟨block, isBlock, noExit⟩ := Option.map_eq_some_iff.mp unclosed
    let y : Stage := ⟨w₁, f₁, fun _ => address k, x'.memory, ⟨0⟩, here, block, isBlock,
      Option.isNone_iff_eq_none.mp noExit⟩
    exact ⟨y, valueRuns y (address 0) k rfl rfl ⟨inside', rfl⟩
      (binds.later (there₂.trans there₃).later)⟩
  · cases callRuns with
    | body direct =>
      have isVirtual : boundOverride.tableRoot ⟨1⟩ = .ok (some ⟨0⟩) ∧
          boundOverride.namedVirtuals ⟨0⟩ = .ok [(⟨3⟩, ⟨2⟩)] := by
        decide +kernel
      exact absurd ⟨⟨0⟩, _, isVirtual.1, isVirtual.2, by simp⟩ direct
    | @slot operands f c values f₀ f₁ w₀ w₁ w₂ _ evaluated isFunction passed runs =>
      have noParams : (boundOverride.function ⟨3⟩).toOption.map (·.params) = some [] := by
        decide +kernel
      simp only [show boundOverride.function ⟨3⟩ = .ok f from isFunction, Except.toOption,
        Option.map_some, Option.some.injEq] at noParams
      cases evaluated
      simp only [Emit.passToSlot, noParams] at passed
      cases passed
      let z : Stage := ⟨w₁, givenObject, fun _ => address 0, mem, ⟨0⟩, isOpen⟩
      obtain ⟨d, m', _, _, same, runs⟩ := runs z ⟨1⟩ [⟨1⟩, ⟨0⟩] t 0 [] rfl rfl isInstance (by simp)
        ⟨inside, rfl⟩ .nil
      obtain rfl : m' = ⟨3⟩ := same (by simp)
      exact ⟨z, runs f isFunction rfl⟩

/-- The truth value behind the pointer that a global holds. -/
def Machine.Memory.truth? (mem : Memory) (name : String) : Option Bool :=
  match mem.globals.find? (·.name = name) with
  | some cell =>
    match mem.load cell.value with
    | .ok (.bool b) => some b
    | _ => none
  | none => none

/-- Runs the statements at the top and looks at two globals of truth values. -/
def CompiledUnit.truths? (unit : CompiledUnit) (a b : String) :
    Option (Option Bool × Option Bool) :=
  match invokeStraight ⟨unit.code, #[]⟩ maxNesting (.function unit.entry) []
    (Machine.ofModule unit.code).state with
  | .ok _ st => some (st.memory.truth? a, st.memory.truth? b)
  | .error _ _ => none

/-- A program that compiles and runs, and what the two globals hold then. -/
theorem CompiledUnit.of_truths? {limit : Nat} {p : Program} {a b : String} {x y : Option Bool}
    (ran : ((compileUnitWithin limit p .ambient {}).toOption.bind (·.truths? a b)) = some (x, y)) :
    ∃ unit v machine, compileUnitWithin limit p .ambient {} = .ok unit ∧
      (Machine.ofModule unit.code).callFunction unit.entry [] = (.ok v, machine) ∧
      machine.state.memory.truth? a = x ∧ machine.state.memory.truth? b = y := by
  obtain ⟨unit, compiled, ran⟩ := Option.bind_eq_some_iff.mp ran
  unfold CompiledUnit.truths? at ran
  split at ran
  · rename_i v st ended
    obtain ⟨isA, isB⟩ := Prod.mk.inj (Option.some.inj ran)
    exact ⟨unit, v, ⟨⟨unit.code, #[]⟩, st⟩, toOption_eq_some_iff.mp compiled,
      callFunction_of_straight (m := .ofModule unit.code) ended (by simp), isA, isB⟩
  · cases ran

/-- A method that is read from an instance of the class above is not the one that is called: the
program compiles and runs, the call gives what the class below declares, and the value that was read
gives what the class above does. -/
theorem read_method_misses_override : ∃ unit v machine,
    compileUnitWithin 20 boundOverride .ambient {} = .ok unit ∧
    (Machine.ofModule unit.code).callFunction unit.entry [] = (.ok v, machine) ∧
    machine.state.memory.truth? "global.a" = some true ∧
    machine.state.memory.truth? "global.b" = some false :=
  CompiledUnit.of_truths? (by decide +kernel)

end ShapeCompiler
