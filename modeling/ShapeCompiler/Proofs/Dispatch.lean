import ShapeCompiler.Proofs.Calls
import ShapeCompiler.Proofs.Evaluation
import ShapeCompiler.Proofs.Extents
import ShapeCompiler.Proofs.Instances
import ShapeCompiler.Proofs.Overrides

/-!
# Calls through method tables

* `Passed`: an environment that the arguments and the object were put into;
* `invoke_trampoline`: what stands in the slot of an overridden method runs the body of the method
  with the object and the arguments;
* `install_dispatches`: the table of a new instance, and what calls through it reach.
-/

namespace ShapeCompiler

open Source Code Work Machine

/-! ## Arguments -/

/-- The slots of an environment in order: parameters first, and the receiver behind them. -/
structure Environment.Ordered (e : Environment) : Prop where
  params : e.paramCount ≤ e.slots.length
  receiver : ∀ r, e.receiverSlot = some r → e.paramCount ≤ r ∧ r < e.slots.length

theorem Environment.Formed.ordered {p : Program} {w : Work} {d : DeclId} {e : Environment}
    (h : e.Formed p w d) : e.Ordered := by
  have params : e.paramCount ≤ e.slots.length := by
    rw [h.count]
    exact List.length_filter_le _ _
  refine ⟨params, fun r isSlot => ?_⟩
  obtain ⟨inside, isReceiver, _⟩ := List.findIdx?_eq_some_iff_getElem.mp isSlot
  refine ⟨Nat.le_of_not_lt fun before => ?_, inside⟩
  obtain ⟨formals, _, all⟩ := h.formals
  have member : e.slots[r] ∈ e.slots.take e.paramCount := by
    refine List.mem_of_getElem? (i := r) ?_
    rw [List.getElem?_take_of_lt before, List.getElem?_eq_getElem inside]
  obtain ⟨_, _, formal⟩ := formal_of_mem all member
  obtain ⟨_, _, named⟩ := formal.name
  simp [named] at isReceiver

/-- Fields of an environment, once some arguments are in new cells in its first slots. -/
structure Passing (fields args : List Value) (mem : Memory) (j i : Nat) (mem' : Memory)
    (fields' : List Value) : Prop where
  old : j < mem.heap.size
  keeps : mem.Keeps [j] mem'
  cell : mem'.heap[j]? = some (.agg fields')
  length : fields'.length = fields.length
  passed : ∀ q v, q < i → args[q]? = some v → ∃ k, mem.heap.size ≤ k ∧
    fields'[q]? = some (address k) ∧ mem'.heap[k]? = some v
  others : ∀ q, i ≤ q → fields'[q]? = fields[q]?

/-- One more argument. -/
theorem Passing.succ {fields args fields' : List Value} {mem mem' : Memory} {j i : Nat} {v : Value}
    (h : Passing fields args mem j i mem' fields') (inside : i < fields.length)
    (arg : args[i]? = some v) :
    Passing fields args mem j (i + 1)
      ((mem'.push v).put j (.agg (fields'.set i (address mem'.heap.size))))
      (fields'.set i (address mem'.heap.size)) := by
  have inHeap := Memory.lt_of_heap h.cell
  have keeps : mem'.Keeps [j] ((mem'.push v).put j
      (.agg (fields'.set i (address mem'.heap.size)))) :=
    ((Memory.keeps_push _ _).weaken (by simp)).trans (Memory.keeps_put _ _ _)
  have old := h.old
  refine ⟨old, h.keeps.trans keeps, Memory.heap_put (by simp; omega) _, by simpa using h.length,
    ?_, ?_⟩
  · intro q u before isArg
    by_cases last : q = i
    · subst last
      obtain rfl : v = u := Option.some.inj (arg.symm.trans isArg)
      refine ⟨mem'.heap.size, h.keeps.size, ?_, ?_⟩
      · rw [List.getElem?_set_self (by rw [h.length]; exact inside)]
      · rw [Memory.heap_put_ne _ (by omega), Memory.heap_push]
    · obtain ⟨k, new, isField, isCell⟩ := h.passed q u (by omega) isArg
      refine ⟨k, new, ?_, keeps.heap k u (by simp; omega) isCell⟩
      rw [List.getElem?_set_ne (by omega)]
      exact isField
  · intro q after
    rw [List.getElem?_set_ne (by omega)]
    exact h.others q (by omega)

/-- The fields of an environment, once the arguments and the object are in it. -/
structure Passed (e : Environment) (this : Value) (args fields : List Value) (j : Nat)
    (mem mem' : Memory) (fields' : List Value) : Prop where
  keeps : mem.Keeps [j] mem'
  cell : mem'.heap[j]? = some (.agg fields')
  length : fields'.length = fields.length
  params : ∀ (i : Nat) (v : Value), args[i]? = some v → ∃ k, mem.heap.size ≤ k ∧ fields'[i]? =
    some (address k) ∧
    mem'.heap[k]? = some v
  receiver : ∀ r : Nat, e.receiverSlot = some r → fields'[r]? = some this
  others : ∀ i : Nat, e.paramCount ≤ i → e.receiverSlot ≠ some i → fields'[i]? = fields[i]?

theorem Passing.done {e : Environment} {this : Value} {fields args fields' : List Value}
    {mem mem' : Memory} {j : Nat} (h : Passing fields args mem j e.paramCount mem' fields')
    (none : e.receiverSlot = none) (arity : args.length = e.paramCount) :
    Passed e this args fields j mem mem' fields' := by
  refine ⟨h.keeps, h.cell, h.length, fun i v arg => h.passed i v ?_ arg, ?_, ?_⟩
  · have := (List.getElem?_eq_some_iff.mp arg).1
    omega
  · simp [none]
  · exact fun i after _ => h.others i after

theorem Passing.withReceiver {e : Environment} {this : Value} {fields args fields' : List Value}
    {mem mem' : Memory} {j r : Nat} (h : Passing fields args mem j e.paramCount mem' fields')
    (ordered : e.Ordered) (isSlot : e.receiverSlot = some r) (arity : args.length = e.paramCount)
    (length : fields.length = e.slots.length) :
    Passed e this args fields j mem (mem'.put j (.agg (fields'.set r this)))
    (fields'.set r this) := by
  obtain ⟨behind, inside⟩ := ordered.receiver r isSlot
  have inHeap := Memory.lt_of_heap h.cell
  have sameLength := h.length
  have old := h.old
  refine ⟨h.keeps.trans (Memory.keeps_put _ _ _), Memory.heap_put inHeap _, by simpa, ?_, ?_, ?_⟩
  · intro i v arg
    have := (List.getElem?_eq_some_iff.mp arg).1
    obtain ⟨k, new, isField, isCell⟩ := h.passed i v (by omega) arg
    refine ⟨k, new, ?_, by rw [Memory.heap_put_ne _ (by omega)]; exact isCell⟩
    rw [List.getElem?_set_ne (by omega)]
    exact isField
  · intro r' isSlot'
    obtain rfl : r = r' := Option.some.inj (isSlot.symm.trans isSlot')
    rw [List.getElem?_set_self (by omega)]
  · intro i after notReceiver
    have apart : r ≠ i := fun same => notReceiver (same ▸ isSlot)
    rw [List.getElem?_set_ne apart]
    exact h.others i after

/-- Moves the object and the arguments to the environment in the allocation `j`. -/
theorem passArguments_does {T : TypeTable → Prop} {p : Point} {e : Environment} {env : ValueId}
    {this : Value} {args fields : List Value} {j : Nat}
    (isPtr : ∀ types, T types → types.get .ptr = .ptr) (ordered : e.Ordered)
    (isEnv : p.Knows env (address j)) (cell : p.memory.heap[j]? = some (.agg fields))
    (length : fields.length = e.slots.length) (arity : args.length = e.paramCount)
    (isThis : p.Knows (Draft.param 0) this)
    (isArg : ∀ i v, args[i]? = some v → p.Knows (Draft.param (i + 1)) v) :
    Writing.Does T p (passArguments e env) fun _ p' =>
      ∃ fields', Passed e this args fields j p.memory p'.memory fields' := by
  have params := ordered.params
  have start : Passing fields args p.memory j 0 p.memory fields :=
    ⟨Memory.lt_of_heap cell, .refl _ _, cell, rfl, fun q v before => by omega, fun _ _ => rfl⟩
  refine .bind (.forM (fun done p' => ∃ fields',
    Passing fields args p.memory j done.length p'.memory fields') (List.range e.paramCount)
    ⟨fields, start⟩ ?_) ?_
  · rintro done i rest parts p₁ goes₁ ⟨fields₁, passing₁⟩
    obtain ⟨rfl, before⟩ := Emit.eq_of_range_eq parts
    obtain ⟨v, arg⟩ : ∃ v, args[done.length]? = some v :=
      ⟨_, List.getElem?_eq_getElem (by omega)⟩
    refine .bind (.alloc "arg" fun types admitted => zeroValue_ptr (isPtr types admitted)) ?_
    rintro cellId p₂ goes₂ ⟨isCell, memory₂, -⟩
    have stored₂ : p₂.memory.store (p₂.values cellId) (p₂.values (Draft.param (done.length + 1))) =
        .ok (p₁.memory.push v) := by
      rw [isCell.value, (goes₂.knows (goes₁.knows (isArg _ v arg))).value, memory₂,
        Memory.store_cell (by simp), Memory.put_push]
    refine .bind (.store stored₂) ?_
    rintro _ p₃ goes₃ ⟨-, memory₃, -⟩
    have isEnv₃ := goes₃.knows (goes₂.knows (goes₁.knows isEnv))
    refine .bind (.fieldAddr e.record done.length "arg.p" isEnv₃.value) ?_
    rintro slot p₄ goes₄ ⟨isSlot, memory₄, -⟩
    have isCell₄ := goes₄.knows (goes₃.knows isCell)
    have cell₄ : (p₁.memory.push v).heap[j]? = some (.agg fields₁) :=
      Memory.heap_push_lt _ passing₁.cell
    have stored₄ : p₄.memory.store (p₄.values slot) (p₄.values cellId) =
        .ok ((p₁.memory.push v).put j (.agg (fields₁.set done.length
          (address p₁.memory.heap.size)))) := by
      have sameLength := passing₁.length
      rw [isSlot.value, isCell₄.value, memory₄, memory₃]
      exact Memory.store_heap cell₄ (by omega) _
    refine (Writing.Does.store stored₄).mono ?_
    rintro _ p₅ _ ⟨-, memory₅, -⟩
    have succ := passing₁.succ (by omega) arg
    rw [← memory₅] at succ
    exact ⟨_, by simpa using succ⟩
  · rintro _ p₁ goes₁ ⟨fields₁, passing₁⟩
    rw [List.length_range] at passing₁
    split
    · rename_i r isSlot
      have sameLength := passing₁.length
      obtain ⟨_, inside⟩ := ordered.receiver r isSlot
      refine .bind (.fieldAddr e.record r "this.p" (goes₁.knows isEnv).value) ?_
      rintro slot p₂ goes₂ ⟨isField, memory₂, -⟩
      have stored : p₂.memory.store (p₂.values slot) (p₂.values (Draft.param 0)) =
          .ok (p₁.memory.put j (.agg (fields₁.set r this))) := by
        rw [isField.value, (goes₂.knows (goes₁.knows isThis)).value, memory₂]
        exact Memory.store_heap passing₁.cell (by omega) _
      refine (Writing.Does.store stored).mono ?_
      rintro _ p₃ _ ⟨-, memory₃, -⟩
      rw [memory₃]
      exact ⟨_, passing₁.withReceiver ordered isSlot arity length⟩
    · rename_i none
      exact .pure ⟨fields₁, passing₁.done none arity⟩

/-! ## Replacements -/

/-- Gets the closure that the object's own table holds at a position, and moves the object and the
arguments to its environment. -/
def trampolineStart (rt : Runtime) (layout : ClassLayout) (e : Environment) (closureSlot : Int64) :
    Writing ValueId := do
  let tableAddr ← Draft.fieldAddr layout.record (Draft.param 0) 0 "vptr.p"
  let table ← Draft.load .ptr tableAddr "vptr"
  let index ← Draft.word closureSlot
  let closureAddr ← Draft.elemAddr .ptr table index "closure.p"
  let closure ← Draft.load .ptr closureAddr "closure"
  let envAddr ← Draft.fieldAddr rt.closure closure 1 "env.p"
  let env ← Draft.load .ptr envAddr "env"
  passArguments e env
  return closure

theorem trampolineSteps_eq (rt : Runtime) (layout : ClassLayout) (e : Environment)
    (closureSlot : Int64) : trampolineSteps rt layout e closureSlot =
      (trampolineStart rt layout e closureSlot >>= fun closure =>
        endWith fun dst => .call dst rt.call [closure]) := by
  simp only [trampolineStart, bind_assoc, pure_bind]
  rfl

/-- Gets code and environment of a closure. -/
def closureStart (closure : TyId) : Writing (ValueId × ValueId) := do
  let codeAddr ← Draft.fieldAddr closure (Draft.param 0) 0 "code.p"
  let code ← Draft.load .ptr codeAddr "code"
  let envAddr ← Draft.fieldAddr closure (Draft.param 0) 1 "env.p"
  let env ← Draft.load .ptr envAddr "env"
  return (code, env)

theorem closureCallBody_eq (closure bodySig : TyId) (call : FuncId) :
    closureCallBody closure bodySig call = writeBody call 1 (closureStart closure >>= fun parts =>
      endWith fun dst => .callIndirect dst bodySig parts.1 [parts.2]) := by
  simp only [closureStart, bind_assoc, pure_bind]
  rfl

/-- What an object holds of an overridden method, seen from the object: its own table, and in it the
closure that stands behind the entries. -/
structure Reaching (mem : Memory) (o : Nat) (position : Nat) (c : CompiledFunction)
    (fields : List Value) (j : Nat) : Prop where
  table : ∃ k rest items, mem.heap[o]? = some (.agg (address k :: rest)) ∧
    mem.heap[k]? = some (.agg items) ∧ items[position]? = some (address (j + 1))
  fits : position < 0x80000000
  pair : mem.heap[j + 1]? = some (.agg [.func c.func, address j])
  cell : mem.heap[j]? = some (.agg fields)

theorem trampolineStart_does {T : TypeTable → Prop} {mem : Memory} {o j position : Nat}
    {c : CompiledFunction} {e : Environment} {args fields : List Value}
    (func : FuncId) (rt : Runtime) (layout : ClassLayout)
    (isPtr : ∀ types, T types → types.get .ptr = .ptr) (h : Reaching mem o position c fields j)
    (ordered : e.Ordered) (length : fields.length = e.slots.length)
    (arity : args.length = e.paramCount) :
    Writing.Does T (startPoint func (address o :: args) mem)
      (trampolineStart rt layout e (Int64.ofNat (min position 0x7FFFFFFF))) fun closure p =>
        p.values closure = address (j + 1) ∧
        ∃ fields', Passed e (address o) args fields j mem p.memory fields' := by
  obtain ⟨k, rest, items, object, table, item⟩ := h.table
  have isThis : (startPoint func (address o :: args) mem).Knows (Draft.param 0) (address o) :=
    knows_param rfl
  refine .bind (.fieldAddr layout.record 0 "vptr.p" isThis.value) ?_
  rintro tableAddr p₁ goes₁ ⟨isTableAddr, memory₁, -⟩
  have loaded₁ : p₁.memory.load (p₁.values tableAddr) = .ok (address k) := by
    rw [isTableAddr.value, memory₁]
    exact Memory.load_heap object rfl (by simp)
  refine .bind (.load .ptr "vptr" loaded₁) ?_
  rintro tableId p₂ goes₂ ⟨isTable, memory₂, -⟩
  refine .bind (.const (.int .i32 _) _) ?_
  rintro index p₃ goes₃ ⟨isIndex, memory₃, -⟩
  refine .bind (.elemAddr .ptr "closure.p" (goes₃.knows isTable).value isIndex.value
    (elementIndex_word h.fits)) ?_
  rintro closureAddr p₄ goes₄ ⟨isClosureAddr, memory₄, -⟩
  have isMemory₄ : p₄.memory = mem := memory₄.trans (memory₃.trans (memory₂.trans memory₁))
  have loaded₄ : p₄.memory.load (p₄.values closureAddr) = .ok (address (j + 1)) := by
    rw [isClosureAddr.value, isMemory₄]
    exact Memory.load_heap table item (by simp)
  refine .bind (.load .ptr "closure" loaded₄) ?_
  rintro closure p₅ goes₅ ⟨isClosure, memory₅, -⟩
  refine .bind (.fieldAddr rt.closure 1 "env.p" isClosure.value) ?_
  rintro envAddr p₆ goes₆ ⟨isEnvAddr, memory₆, -⟩
  have isMemory₆ : p₆.memory = mem := memory₆.trans (memory₅.trans isMemory₄)
  have loaded₆ : p₆.memory.load (p₆.values envAddr) = .ok (address j) := by
    rw [isEnvAddr.value, isMemory₆]
    exact Memory.load_heap h.pair rfl (by simp)
  refine .bind (.load .ptr "env" loaded₆) ?_
  rintro env p₇ goes₇ ⟨isEnv, memory₇, -⟩
  have isMemory₇ : p₇.memory = mem := memory₇.trans isMemory₆
  have goes := ((((goes₁.trans goes₂).trans goes₃).trans goes₄).trans goes₅).trans
    (goes₆.trans goes₇)
  have passes := passArguments_does isPtr ordered isEnv (isMemory₇ ▸ h.cell) length arity
    (goes.knows isThis) fun i v arg => goes.knows (knows_param (i := i + 1) arg)
  refine .bind passes ?_
  rintro _ p₈ goes₈ ⟨fields', passed⟩
  rw [isMemory₇] at passed
  refine .pure ⟨?_, fields', passed⟩
  exact ((goes₆.trans (goes₇.trans goes₈)).knows isClosure).value

theorem closureStart_does {T : TypeTable → Prop} {func : FuncId} {mem : Memory} {j : Nat}
    {code : FuncId} (closure : TyId)
    (pair : mem.heap[j + 1]? = some (.agg [.func code, address j])) :
    Writing.Does T (startPoint func [address (j + 1)] mem) (closureStart closure) fun parts p =>
      p.values parts.1 = .func code ∧ p.values parts.2 = address j ∧ p.memory = mem := by
  have isThis : (startPoint func [address (j + 1)] mem).Knows (Draft.param 0) (address (j + 1)) :=
    knows_param rfl
  refine .bind (.fieldAddr closure 0 "code.p" isThis.value) ?_
  rintro codeAddr p₁ goes₁ ⟨isCodeAddr, memory₁, -⟩
  have loaded₁ : p₁.memory.load (p₁.values codeAddr) = .ok (.func code) := by
    rw [isCodeAddr.value, memory₁]
    exact Memory.load_heap pair rfl (by simp)
  refine .bind (.load .ptr "code" loaded₁) ?_
  rintro codeId p₂ goes₂ ⟨isCode, memory₂, -⟩
  refine .bind (.fieldAddr closure 1 "env.p" (goes₂.knows (goes₁.knows isThis)).value) ?_
  rintro envAddr p₃ goes₃ ⟨isEnvAddr, memory₃, -⟩
  have isMemory₃ : p₃.memory = mem := memory₃.trans (memory₂.trans memory₁)
  have loaded₃ : p₃.memory.load (p₃.values envAddr) = .ok (address j) := by
    rw [isEnvAddr.value, isMemory₃]
    exact Memory.load_heap pair rfl (by simp)
  refine .bind (.load .ptr "env" loaded₃) ?_
  rintro env p₄ goes₄ ⟨isEnv, memory₄, -⟩
  exact .pure ⟨((goes₃.trans goes₄).knows isCode).value, isEnv.value, memory₄.trans isMemory₃⟩

/-- The call of closures hands over to the code of the closure. -/
theorem invoke_closure {im : Image} {call code : FuncId} {closure sig : TyId}
    {j : Nat} {mem : Memory}
    (known : im.code.function? call = some ⟨closureCallName, [.ptr], .ptr,
      some (closureCallBody closure sig call)⟩)
    (pair : mem.heap[j + 1]? = some (.agg [.func code, address j])) :
    ∃ needed, ∀ (levels : Nat) (st : State), st.memory = mem → st.depth < maxDepth →
      needed ≤ st.fuel →
      invoke im (levels + 1) (.function call) [address (j + 1)] st =
        outside 1 (invoke im levels (.function code) [address j]
          { st with depth := st.depth + 1, fuel := st.fuel - needed }) := by
  rw [closureCallBody_eq] at known
  obtain ⟨parts, p, needed, -, ⟨isCode, isEnv, isMemory⟩, hands⟩ :=
    invoke_handsOver [address (j + 1)] known (closureStart_does closure pair)
  refine ⟨needed, ?_⟩
  rintro levels st rfl shallow fuel
  have isTarget : (p.values parts.1).callee = .ok (.function code) := by
    rw [isCode]
    rfl
  have calls := callsAt_callIndirect im.code.types ⟨p.size⟩ sig [parts.2] isTarget
  rw [hands levels st _ _ rfl calls shallow fuel, isMemory]
  simp [isEnv]

/-- What stands for an overriding method hands over to the body of the method, with the object and
the arguments in the environment that the object holds. -/
theorem invoke_trampoline {im : Image} {func : FuncId} {name : String} {rt : Runtime}
    {layout : ClassLayout} {e : Environment} {sig : TyId} {mem : Memory} {o j position : Nat}
    {c : CompiledFunction} {args fields : List Value} (isPtr : im.code.types.get .ptr = .ptr)
    (known : im.code.function? func = some ⟨name, List.replicate (e.paramCount + 1) .ptr, .ptr,
      some (writeBody func (e.paramCount + 1) (trampolineSteps rt layout e
        (Int64.ofNat (min position 0x7FFFFFFF))))⟩)
    (isCall : im.code.function? rt.call = some ⟨closureCallName, [.ptr], .ptr,
      some (closureCallBody rt.closure sig rt.call)⟩)
    (h : Reaching mem o position c fields j) (ordered : e.Ordered)
    (length : fields.length = e.slots.length) (arity : args.length = e.paramCount) :
    ∃ mem' fields' needed, Passed e (address o) args fields j mem mem' fields' ∧
      ∀ (levels : Nat) (st : State), st.memory = mem → st.depth + 1 < maxDepth → needed ≤ st.fuel →
        invoke im (levels + 2) (.function func) (address o :: args) st =
          outside 2 (invoke im levels (.function c.func) [address j]
            { st with depth := st.depth + 2, memory := mem', fuel := st.fuel - needed }) := by
  rw [trampolineSteps_eq, ← arity] at known
  have start := trampolineStart_does (T := (· = im.code.types)) func rt layout
    (fun types isTypes => isTypes ▸ isPtr) h ordered length arity
  obtain ⟨closure, p, needed, -, ⟨isClosure, fields', passed⟩, hands⟩ :=
    invoke_handsOver (address o :: args) known start
  have pair := passed.keeps.heap (j + 1) _ (by simp) h.pair
  obtain ⟨needed', hands'⟩ := invoke_closure isCall pair
  refine ⟨p.memory, fields', needed + needed', passed, ?_⟩
  rintro levels st rfl shallow fuel
  have calls := callsAt_call im.code.types p ⟨p.size⟩ rt.call [closure]
  rw [List.map_singleton, isClosure] at calls
  rw [hands (levels + 1) st _ _ rfl calls (by omega) (by omega),
    hands' levels _ rfl (by dsimp only; omega) (by dsimp only; omega), outside_outside]
  simp [Nat.sub_sub]

/-! ## What stays -/

namespace Work

variable {s : Setup} {w w' : Work}

/-- A body stays, unless the statements at the top go by the name of the call of closures. -/
theorem Later.function? (h : Later s w w') (apart : s.config.entryName ≠ closureCallName)
    {f : FuncId} {fn : Function} (known : w.code.function? f = some fn) (has : fn.body.isSome) :
    w'.code.function? f = some fn := by
  obtain ⟨body, there, kept⟩ := h.extends.code.function f fn known
  rcases kept has with loose | rfl
  · exact absurd loose.1 apart
  · exact there

theorem Moment.closureCall (h : Moment s w) (apart : s.config.entryName ≠ closureCallName) :
    w.code.function? startModule.1.call = some ⟨closureCallName, [.ptr], .ptr,
      some (closureCallBody startModule.1.closure startModule.1.bodySig startModule.1.call)⟩ :=
  Later.function? h apart rfl rfl

theorem Later.replacing (h : Later s w w') (apart : s.config.entryName ≠ closureCallName)
    {cls : DeclId} {n : Name} {func : FuncId} (made : Replacing s w cls n func) :
    Replacing s w' cls n func := by
  obtain ⟨overriding, here, bound, known, defined⟩ := made
  exact ⟨overriding, here, h.extends.registry.declEnv _ _ bound, h.extends.registry.env _ _ known,
    h.function? apart defined rfl⟩

/-- What is recorded for an overriding method stands for it. -/
theorem Moment.override_made (h : Moment s w) (apart : s.config.entryName ≠ closureCallName) :
    ∀ key func, w.overrides.get? key = some func → Replacing s w key.1 key.2 func := by
  induction h with
  | same =>
    intro key func known
    cases known
  | @step w w' _ last ih =>
    have old : ∀ key func, w.overrides.get? key = some func → Replacing s w' key.1 key.2 func :=
      fun key func known => last.later.replacing apart (ih key func known)
    cases last with
    | override made =>
      exact Table.forall_insert old ((Step.override made).later.replacing apart made)
    | _ => exact old

theorem Later.arranged (h : Later s w w') {cls : DeclId} {layout : ClassLayout}
    (made : Arranged s w cls layout) : Arranged s w' cls layout :=
  ⟨made.table, made.props, h.fields? made.fields⟩

/-- The recorded layouts of classes are theirs. -/
theorem Moment.layout_made (h : Moment s w) :
    ∀ cls layout, w.layouts.get? cls = some layout → Arranged s w cls layout := by
  induction h with
  | same =>
    intro cls layout known
    cases known
  | @step w w' _ last ih =>
    have old : ∀ cls layout, w.layouts.get? cls = some layout → Arranged s w' cls layout :=
      fun cls layout known => last.later.arranged (ih cls layout known)
    cases last with
    | layout made => exact Table.forall_insert old ((Step.layout made).later.arranged made)
    | _ => exact old

end Work

theorem StandsFor.replacing {s : Setup} {w : Work} {cls : DeclId} {n : Name} {func : FuncId}
    (h : StandsFor s w cls n func) (apart : s.config.entryName ≠ closureCallName) :
    Replacing s w cls n func := by
  obtain ⟨w₁, moment, later, recorded⟩ := h
  exact later.replacing apart (moment.override_made apart (cls, n) func recorded)

/-- An instance of a class with a table has a field for the address of the table in front. -/
theorem Arranged.zeroValue {s : Setup} {w : Work} {cls root : DeclId} {layout : ClassLayout}
    {types : TypeTable} (h : Arranged s w cls layout) (moment : Moment s w)
    (more : w.code.types.Grows types) (isRoot : s.program.tableRoot cls = .ok (some root)) :
    zeroValue types layout.record = .agg (.null :: List.replicate layout.props.length .null) := by
  obtain ⟨chain, isChain, hasTable⟩ := h.table
  obtain ⟨chain', d, isChain', member, isDecl, flag⟩ := Program.tableRoot_spec isRoot
  obtain rfl : chain = chain' := Except.ok.inj (isChain.symm.trans isChain')
  have offset : layout.offset = 1 := by
    have : layout.hasTable := hasTable.mpr ⟨root, member, d, isDecl, flag⟩
    simp [ClassLayout.offset, this]
  rw [zeroValue_record (moment.get_ptr more) (TypeTable.fields?_of_grows more h.fields), offset,
    List.replicate_succ]

/-! ## Calls -/

/-- Called with an object and arguments, the function hands over to a body, in the environment in
the allocation `j` that the object's own table leads to. -/
def HandsOver (im : Image) (func : FuncId) (o position : Nat) (c : CompiledFunction)
    (e : Environment)
    (j : Nat) : Prop :=
  ∀ (mem : Memory) (fields args : List Value), Reaching mem o position c fields j →
    fields.length = e.slots.length → args.length = e.paramCount →
    ∃ mem' fields' needed, Passed e (address o) args fields j mem mem' fields' ∧
      ∀ (levels : Nat) (st : State), st.memory = mem → st.depth + 1 < maxDepth → needed ≤ st.fuel →
        invoke im (levels + 2) (.function func) (address o :: args) st =
          outside 2 (invoke im levels (.function c.func) [address j]
            { st with depth := st.depth + 2, memory := mem', fuel := st.fuel - needed })

/-- What stands for an overriding method hands over to the body of that method. -/
theorem StandsFor.handsOver {s : Setup} {w : Work} {im : Image} {cls m : DeclId} {n : Name}
    {func : FuncId} {t : MethodTable} {overrides : List (Name × DeclId × Nat)} {q slot : Nat}
    {c : CompiledFunction} {e : Environment} (h : StandsFor s w cls n func)
    (standard : s.runtime = startModule.1) (apart : s.config.entryName ≠ closureCallName)
    (moment : Moment s w) (isCode : im.code = w.code) (overriding : Overriding s cls t overrides)
    (names : (overrides.map (·.1)).Nodup) (here : overrides[q]? = some (n, m, slot))
    (bound : w.registry.declEnv? m = some c.env) (known : w.registry.env? c.env = some e)
    (o j : Nat) : HandsOver im func o (t.length + q) c e j := by
  obtain @⟨t', overrides', m', slot', q', env', e', layout, name, overriding',
    here', bound', known',
    defined⟩ := h.replacing apart
  -- the function was made for the same method, at the same position
  obtain ⟨sameLength, rfl⟩ := overriding.unique overriding'
  obtain rfl : q = q' := by
    have inside : q < (overrides'.map (·.1)).length := by
      simpa using (List.getElem?_eq_some_iff.mp here).1
    refine (List.getElem?_inj inside names).mp ?_
    simp [here, here']
  have same : (n, m, slot) = (n, m', slot') := Option.some.inj (here.symm.trans here')
  cases same
  obtain rfl : c.env = env' := Option.some.inj (bound.symm.trans bound')
  obtain rfl : e = e' := Option.some.inj (known.symm.trans known')
  obtain ⟨e₁, known₁, owned⟩ := moment.declEnv_owner m c.env bound
  obtain rfl : e = e₁ := Option.some.inj (known.symm.trans known₁)
  have ordered := (moment.formed known owned).ordered
  have isPtr : im.code.types.get .ptr = .ptr := by
    rw [isCode]
    exact moment.get_ptr (.refl _)
  rw [sameLength, ← isCode] at defined
  have isCall := moment.closureCall apart
  rw [← standard, ← isCode] at isCall
  intro mem fields args reaching length arity
  exact invoke_trampoline isPtr defined isCall reaching ordered length arity

/-! ## The shared table -/

/-- The memory holds a value for each entry of the shared table. -/
structure MethodTable.Filled (t : MethodTable) (mem : Memory) (entries : List Value) : Prop where
  cell : ∃ c, mem.globals[t.global.raw]? = some c ∧ c.value = .agg entries
  length : entries.length = t.length
  written : ∀ v ∈ entries, v ≠ .undef

theorem initialValues_scalars (types : TypeTable) (ty : TyId) (consts : List Const) (i : Nat) :
    initialValues types ty i (consts.map .scalar) = consts.map constValue := by
  induction consts generalizing i with
  | nil => rfl
  | cons c rest ih => simp [initialValues, initialValue, ih]

/-- What the module holds in the place of a table with such functions. -/
def MethodTable.consts (t : MethodTable) (functions : List FuncId) : List Const :=
  List.replicate t.header .null ++ functions.map .func ++
    List.replicate (t.length - t.header - functions.length) .null

theorem MethodTable.consts_at (t : MethodTable) {functions : List FuncId} {i : Nat} {f : FuncId}
    (here : functions[i]? = some f) :
    ((t.consts functions).map constValue)[t.header + i]? = some (.func f) := by
  have inside := (List.getElem?_eq_some_iff.mp here).1
  have there : (t.consts functions)[t.header + i]? = some (.func f) := by
    rw [consts, List.getElem?_append_left (by simpa using inside),
      List.getElem?_append_right (by simp)]
    simp [here]
  simp [there, constValue]

theorem MethodTable.Holds.filled {s : Setup} {w : Work} {t : MethodTable} {mem : Memory}
    {functions : List FuncId} (h : t.Holds w functions) (fits : t.Fits s)
    (start : mem.globals[t.global.raw]? = (Memory.ofModule w.code).globals[t.global.raw]?) :
    t.Filled mem ((t.consts functions).map constValue) := by
  obtain ⟨name, known⟩ := h.global
  have count := h.count
  have enough := fits.enough
  have isInitial : Compile.tableInitial t.header t.length functions =
      .aggregate ((t.consts functions).map .scalar) := by
    simp [Compile.tableInitial, consts, Function.comp_def]
  refine ⟨⟨⟨name, .agg ((t.consts functions).map constValue), true⟩, ?_, rfl⟩, ?_, ?_⟩
  · rw [start]
    replace known : w.code.globals[t.global.raw]? = _ := known
    simp [Memory.ofModule, known, isInitial, initialValue, initialValues_scalars]
  · simp [consts]
    omega
  · intro v inside
    obtain ⟨c, member, rfl⟩ := List.mem_map.mp inside
    simp only [consts, List.mem_append, List.mem_replicate, List.mem_map] at member
    rcases member with (⟨_, rfl⟩ | ⟨_, _, rfl⟩) | ⟨_, rfl⟩ <;> simp [constValue]

/-- What the module holds in the place of a table that is not supplied from outside. -/
theorem MethodTable.Emitted.filled {s : Setup} {w : Work} {t : MethodTable} {mem : Memory}
    (h : t.Emitted w) (fits : t.Fits s)
    (start : mem.globals[t.global.raw]? = (Memory.ofModule w.code).globals[t.global.raw]?) :
    ∃ entries, t.Filled mem entries := by
  obtain ⟨functions, holds⟩ := h.functions
  exact ⟨_, holds.filled fits start⟩

/-! ## New instances -/

namespace Emit

/-- The table of the root is made, and then the instance gets it, or one of its own in its place. -/
theorem installTable_places {s : Setup} {l : Lowering} {obj : ValueId} {cls root : DeclId}
    {w w' : Work} {frame frame' : Frame} (hl : l.Walks s) (moment : Moment s w)
    (grounded : frame.Grounded w) (isRoot : s.program.tableRoot cls = .ok (some root))
    (ran : installTable l obj cls frame s w = .ok ((), frame') w') :
    ∃ t overrides w₁, Reaches s w w₁ ∧ t.root = root ∧ t.Made s w₁ ∧ w₁.tables.get? root = some t ∧
      Overriding s cls t overrides ∧
      placeTable l obj cls t overrides frame s w₁ = .ok ((), frame') w' := by
  obtain ⟨found, _, _, asked, ran₁⟩ := of_bind_ok ran
  obtain ⟨rfl, rfl, answer⟩ := of_asks_ok asked
  obtain rfl : some root = found := Except.ok.inj (isRoot.symm.trans answer)
  obtain ⟨t, _, w₁, madeHere, ran₂⟩ := of_bind_ok ran₁
  obtain ⟨rfl, made⟩ := of_lift_ok madeHere
  obtain ⟨there₁, rfl, fits, isMade, recorded⟩ := (Compile.tableOf_ends hl moment root).of_ok made
  obtain ⟨chain, _, _, asked, ran₃⟩ := of_bind_ok ran₂
  obtain ⟨rfl, rfl, isChain⟩ := of_asks_ok asked
  obtain ⟨_, f₂, w₂, checked, ran₄⟩ := of_bind_ok ran₃
  -- the checks change nothing
  have still : Still ((chain.takeWhile (· ≠ t.root)).forM fun c => do
      (← Compile.asks (·.ownFunctions c .method)).forM fun m => Compile.checkOverride t c m :
      Emit Unit) := by
    exact .forM (fun c => .bind (.lift _) fun own => .forM (fun m => .lift _) own) _
  obtain rfl := still _ _ _ _ _ _ checked
  have there₂ := (((checkOverrides_walks t chain).ends (moment.later there₁.later)
    (grounded.later there₁.later)).of_ok checked).1
  obtain ⟨overrides, _, _, asked, ran₅⟩ := of_bind_ok ran₄
  obtain ⟨rfl, rfl, listed⟩ := of_asks_ok asked
  exact ⟨t, overrides, w₂, there₁.trans there₂, rfl, there₂.later.made isMade,
    there₂.later.table recorded, ⟨isRoot, fits, chain, isChain, listed⟩, ran₅⟩

theorem installTable_ok {s : Setup} {l : Lowering} {obj : ValueId} {cls root : DeclId} {w w' : Work}
    {frame frame' : Frame} (hl : l.Walks s) (moment : Moment s w) (grounded : frame.Grounded w)
    (isRoot : s.program.tableRoot cls = .ok (some root))
    (ran : installTable l obj cls frame s w = .ok ((), frame') w') :
    ∃ t overrides w₁, Later s w w₁ ∧ t.root = root ∧ t.Made s w₁ ∧ Overriding s cls t overrides ∧
      placeTable l obj cls t overrides frame s w₁ = .ok ((), frame') w' := by
  obtain ⟨t, overrides, w₁, there, isTable, made, _, overriding, placed⟩ :=
    installTable_places hl moment grounded isRoot ran
  exact ⟨t, overrides, w₁, there.later, isTable, made, overriding, placed⟩

end Emit

/-- A new instance is to get its table: it is in the allocation `o`, and the body that makes it was
called with the environment in the allocation `j`. -/
structure NewInstance (im : Image) (w : Work) (frame : Frame) (layout : ClassLayout) (obj : ValueId)
    (reg : Registers) (mem : Memory) (o j : Nat) : Prop where
  inside : obj.raw < frame.draft.values.size
  object : reg.read obj = address o
  fresh : mem.heap[o]? = some (zeroValue im.code.types layout.record)
  called : ∀ current, frame.env = some current → j ≠ o ∧
    current.ptr.raw < frame.draft.values.size ∧ reg.read current.ptr = address j ∧
    ∃ around items, w.registry.env? current.id = some around ∧ mem.heap[j]? = some (.agg items) ∧
      (∀ v ∈ items, v ≠ .undef) ∧ items.length = around.slots.length

namespace NewInstance

variable {s : Setup} {im : Image} {w w₁ : Work} {frame : Frame}
  {layout : ClassLayout} {obj : ValueId}
  {reg : Registers} {mem : Memory} {o j : Nat}

/-- It has a field for the table and one for each property, all of them null. -/
theorem allocated (new : NewInstance im w frame layout obj reg mem o j) (moment : Moment s w)
    {cls root : DeclId} (laidOut : w.layouts.get? cls = some layout)
    (isRoot : s.program.tableRoot cls = .ok (some root))
    (grows : w.code.types.Grows im.code.types) :
    mem.heap[o]? = some (.agg (.null :: List.replicate layout.props.length .null)) := by
  rw [← (moment.layout_made cls layout laidOut).zeroValue moment grows isRoot]
  exact new.fresh

/-- Later, too, the body is called with the environment. -/
theorem calledWith (new : NewInstance im w frame layout obj reg mem o j) (later : Later s w w₁)
    {place : BlockId} (isOpen : frame.draft.Open place) :
    (⟨w₁, frame, reg.read, mem, place, isOpen⟩ : Stage).CalledWith j := by
  intro current here
  obtain ⟨_, inside, isPtr, around, items, known, cell, written, length⟩ := new.called current here
  exact ⟨⟨inside, isPtr⟩, around, items, later.extends.registry.env _ _ known, cell,
    length, written⟩

theorem apart (new : NewInstance im w frame layout obj reg mem o j) (isCalled : frame.env.isSome) :
    j ≠ o := by
  obtain ⟨current, here⟩ := Option.isSome_iff_exists.mp isCalled
  exact (new.called current here).1

end NewInstance

/-- The memory has the shared table: as it is in the module, or, if it is supplied from outside,
with a value for each entry. -/
structure MethodTable.Present (t : MethodTable) (code : Module) (mem : Memory) : Prop where
  own : t.external = false →
    mem.globals[t.global.raw]? = (Memory.ofModule code).globals[t.global.raw]?
  supplied : t.external = true → ∃ entries, t.Filled mem entries

/-- An object holds, in its table, a closure of the body of a method that was compiled for a class.
The environment of the closure leads back to the object. -/
structure Carries (s : Setup) (w : Work) (cls m : DeclId) (o : Nat) (mem : Memory)
    (c : CompiledFunction) (e : Environment) (position : Nat) (fields : List Value) (j : Nat) :
    Prop where
  compiled : CompiledFor s w cls m c
  bound : w.registry.declEnv? m = some c.env
  env : w.registry.env? c.env = some e
  formed : e.Formed s.program w m
  held : Reaching mem o position c fields j
  length : fields.length = e.slots.length
  receiver : ∀ r, e.receiverSlot = some r → fields[r]? = some (address o)

/-- An object answers calls of a function with the body of a method that was compiled for a class:
the object holds a closure of that body, and the function hands over to it. -/
def Answers (s : Setup) (w : Work) (im : Image) (cls m : DeclId) (func : FuncId) (o : Nat)
    (mem : Memory) : Prop :=
  ∃ c e position fields j, Carries s w cls m o mem c e position fields j ∧
    HandsOver im func o position c e j

/-- The table of an object's own: the slots of methods that some of the classes declare hold what
stands for the first of them, the other slots are those of the shared table. -/
structure OwnTable (s : Setup) (w : Work) (cls : DeclId) (t : MethodTable) (classes : List DeclId)
    (o : Nat) (entries : List Value) (mem : Memory) (items : List Value) : Prop where
  overridden : ∀ i n d c, t.methods[i]? = some (n, d) → c ∈ classes →
    s.program.DeclaresMethod c n → ∃ m func, s.program.FirstMethod n classes m ∧
      StandsFor s w cls n func ∧ items[t.header + i]? = some (.func func) ∧
      ∃ c e position fields j, Carries s w cls m o mem c e position fields j
  others : ∀ i, i < t.length → (∀ q n d, t.methods[q]? = some (n, d) → i = t.header + q →
    ∀ c ∈ classes, ¬ s.program.DeclaresMethod c n) → items[i]? = entries[i]?

/-- What stands in the slots of methods that some of the classes declare answers with the first of
them. -/
def Dispatches (s : Setup) (w : Work) (im : Image) (cls : DeclId) (t : MethodTable)
    (classes : List DeclId) (o : Nat) (mem : Memory) (items : List Value) : Prop :=
  ∀ i n d c, t.methods[i]? = some (n, d) → c ∈ classes → s.program.DeclaresMethod c n →
    ∃ m func, s.program.FirstMethod n classes m ∧ items[t.header + i]? = some (.func func) ∧
      Answers s w im cls m func o mem

section Patched

variable {s : Setup} {base w final : Work} {im : Image} {cls : DeclId} {t : MethodTable}
  {overrides : List (Name × DeclId × Nat)} {classes : List DeclId} {o k : Nat} {mem : Memory}
  {rest entries items : List Value}

/-- A slot of a method that some class declares, with what the object holds for it. -/
theorem Patched.overridden
    (h : Patched s base t overrides cls (address o) entries overrides.length w mem k items)
    (object : mem.heap[o]? = some (.agg (address k :: rest))) (moment : Moment s w)
    (lists : t.Lists s.program classes overrides)
    (fits : t.length + overrides.length ≤ 0x80000000) {i : Nat} {n : Name} {d c : DeclId}
    (here : t.methods[i]? = some (n, d)) (member : c ∈ classes)
    (declares : s.program.DeclaresMethod c n) :
    ∃ q m slot func c e fields j, overrides[q]? = some (n, m, slot) ∧
      s.program.FirstMethod n classes m ∧ StandsFor s w cls n func ∧
      items[t.header + i]? = some (.func func) ∧
      Carries s w cls m o mem c e (t.length + q) fields j := by
  have inTable := List.mem_of_getElem? here
  obtain ⟨m, found⟩ := lists.replaced inTable member declares
  have listed := lists.listed i n d m here found
  obtain ⟨q, isListed⟩ := List.mem_iff_getElem?.mp listed
  have inside := (List.getElem?_eq_some_iff.mp isListed).1
  obtain ⟨func, c', e, fields, j, _, standing, held, holds, closure⟩ :=
    h.replaced fits lists.slots_nodup q n m _ inside isListed
  obtain ⟨e', known, owned⟩ := moment.declEnv_owner m c'.env held.bound
  obtain rfl : e = e' := Option.some.inj (held.env.symm.trans known)
  have reaching : Reaching mem o (t.length + q) c' fields j :=
    ⟨⟨k, rest, items, object, h.cell, closure⟩, by omega, held.pair, held.cell⟩
  exact ⟨q, m, _, func, c', e, fields, j, isListed, lists.first inTable found, standing,
    Nat.add_comm i t.header ▸ holds, held.compiled, held.bound, held.env, moment.formed known owned,
    reaching, held.length, held.receiver⟩

theorem Patched.ownTable
    (h : Patched s base t overrides cls (address o) entries overrides.length w mem k items)
    (object : mem.heap[o]? = some (.agg (address k :: rest))) (moment : Moment s w)
    (lists : t.Lists s.program classes overrides)
    (fits : t.length + overrides.length ≤ 0x80000000) :
    OwnTable s w cls t classes o entries mem items := by
  refine ⟨fun i n d c here member declares => ?_, fun i inside free => ?_⟩
  · obtain ⟨q, m, _, func, c', e, fields, j, _, first, standing, holds, carries⟩ :=
      h.overridden object moment lists fits here member declares
    exact ⟨m, func, first, standing, holds, c', e, t.length + q, fields, j, carries⟩
  · refine h.others fits i inside fun q n m _ isListed => ?_
    obtain ⟨i', d, here, rfl, c, member, declares⟩ := lists.declared (List.mem_of_getElem? isListed)
    exact free i' n d here rfl c member declares

/-- The functions in the table hand over, unless the entry has the name of the function that calls
closures. -/
theorem Patched.dispatches (standard : s.runtime = startModule.1)
    (apart : s.config.entryName ≠ closureCallName)
    (h : Patched s base t overrides cls (address o) entries overrides.length w mem k items)
    (object : mem.heap[o]? = some (.agg (address k :: rest))) (moment : Moment s w)
    (overriding : Overriding s cls t overrides) (lists : t.Lists s.program classes overrides)
    (fits : t.length + overrides.length ≤ 0x80000000) (later : Later s w final)
    (isCode : im.code = final.code) : Dispatches s w im cls t classes o mem items := by
  intro i n d c here member declares
  obtain ⟨q, m, slot, func, c', e, fields, j, isListed, first, standing, holds, carries⟩ :=
    h.overridden object moment lists fits here member declares
  have standing' : StandsFor s final cls n func := Once.later standing later
  exact ⟨m, func, first, holds, c', e, t.length + q, fields, j, carries,
    standing'.handsOver standard apart (moment.later later) isCode overriding lists.names isListed
      (later.extends.registry.declEnv _ _ carries.bound)
      (later.extends.registry.env _ _ carries.env) o j⟩

end Patched

/-- The copy of a table with `n` entries takes `4 * n` values, so it is short enough for its
positions to be words. -/
theorem Emit.placeTable_fits {s : Setup} {l : Lowering} {obj : ValueId} {cls : DeclId}
    {t : MethodTable}
    {overrides : List (Name × DeclId × Nat)} {frame frame' : Frame} {w w' : Work}
    (fits : t.Fits s) (short : overrides.length ≤ t.methods.length)
    (ran : placeTable l obj cls t overrides frame s w = .ok ((), frame') w')
    (numbered : frame'.draft.values.size ≤ 0x100000000) (some : overrides ≠ []) :
    t.length + overrides.length ≤ 0x80000000 := by
  have added := (placeTable_adds l obj cls t some).add ran
  have enough := fits.enough
  omega

theorem Emit.Installed.keeps {s : Setup} {t : MethodTable} {overrides : List (Name × DeclId × Nat)}
    {cls : DeclId} {o : Nat} {rest entries : List Value} {mem mem' : Memory} {base w : Work}
    (h : Installed s base t overrides cls o rest entries mem w mem') : mem.Keeps [o] mem' := by
  cases h with
  | shared _ memory => exact memory ▸ Memory.keeps_put _ _ _
  | own _ _ keeps _ _ => exact keeps.toKeeps

/-- Virtual calls. For a class whose table belongs to a class with virtual methods of different
names, the code that gives a new instance its table leaves everything but the instance as it was,
the shared table included, and does not fail. If no class below the one with the table declares one
of the virtual methods, the instance points at the shared table; else it points at a new one, in
which the slots of the methods that are declared below hold functions that answer with the method
declared first, going up from the class of the instance. -/
theorem install_dispatches (p : Program) (r : Resolver) (config : Config) (depth : Nat)
    {cls root : DeclId} {chain : List DeclId} {methods : List (Name × DeclId)}
    {layout : ClassLayout}
    {obj : ValueId} {w w' : Work} {frame frame' : Frame} {place : BlockId}
    (moment : Moment (.of p r config) w) (grounded : frame.Grounded w)
    (isOpen : frame.draft.Open place) (isRoot : p.tableRoot cls = .ok (some root))
    (isChain : p.classChain cls = .ok chain) (virtuals : p.namedVirtuals root = .ok methods)
    (distinct : (methods.map (·.1)).Nodup) (laidOut : w.layouts.get? cls = some layout)
    (compiled : Emit.installTable (.ofDepth depth) obj cls frame (.of p r config) w =
      .ok ((), frame') w')
    (numbered : frame'.draft.values.size ≤ 0x100000000) :
    ∃ t : MethodTable, t.root = root ∧ t.methods = methods ∧ t.Fits (.of p r config) ∧
      t.Made (.of p r config) w' ∧
      ∀ (final : Work) (im : Image) (reg : Registers) (mem : Memory) (o j : Nat),
        Later (.of p r config) w' final → im.code = final.code →
        frame'.draft.values.size ≤ reg.size → NewInstance im w frame layout obj reg mem o j →
        t.Present im.code mem →
        ∃ code entries mem', frame.draft.Appends place code frame'.draft ∧ t.Filled mem entries ∧
          (∀ (invoke : Invoke) (st : State), st.memory = mem → code.length ≤ st.fuel →
            ∃ reg', execInsts im.code.types invoke reg code st =
              .ok reg' { st with memory := mem', fuel := st.fuel - code.length }) ∧
          mem.Keeps [o] mem' ∧
          ((∀ n d c, (n, d) ∈ methods → c ∈ chain.takeWhile (· ≠ root) →
              ¬ p.DeclaresMethod c n) →
            mem'.heap[o]? = some (.agg (.ptr (Region.global t.global).root ::
              List.replicate layout.props.length .null))) ∧
          ∀ n d c, (n, d) ∈ methods → c ∈ chain.takeWhile (· ≠ root) → p.DeclaresMethod c n →
            ∃ k items, mem.heap.size ≤ k ∧
              mem'.heap[o]? = some (.agg (address k ::
                List.replicate layout.props.length .null)) ∧
              mem'.heap[k]? = some (.agg items) ∧
              OwnTable (.of p r config) w' cls t (chain.takeWhile (· ≠ root)) o entries mem' items ∧
              (config.entryName ≠ closureCallName → Dispatches (.of p r config) w' im cls t
                (chain.takeWhile (· ≠ root)) o mem' items) := by
  have hl := Lowering.ofDepth_walks (s := .of p r config) depth
  obtain ⟨t, overrides, w₁, later₁, rfl, made, overriding, ran⟩ :=
    Emit.installTable_ok hl moment grounded isRoot compiled
  have moment₁ := moment.later later₁
  obtain rfl : methods = t.methods := Except.ok.inj (virtuals.symm.trans overriding.fits.methods)
  have lists : t.Lists p (chain.takeWhile (· ≠ t.root)) overrides := by
    obtain ⟨chain', isChain', listed⟩ := overriding.listed
    obtain rfl : chain = chain' := Except.ok.inj (isChain.symm.trans isChain')
    exact MethodTable.overriding_lists distinct listed
  have fits := Emit.placeTable_fits overriding.fits lists.length ran numbered
  obtain ⟨-, inTable⟩ := overriding.inTable
  have later₂ : Later (.of p r config) w₁ w' :=
    (((Emit.placeTable_walks hl overriding obj).ends moment₁ (grounded.later later₁)).of_ok
      ran).1.later
  have moment₂ := moment₁.later later₂
  refine ⟨t, rfl, rfl, overriding.fits, later₂.made made, ?_⟩
  intro final im reg mem o j later isCode room new present
  have grows : ∀ w, Later (.of p r config) w w' → w.code.types.Grows im.code.types :=
      fun w before =>
    isCode ▸ (before.trans later).extends.code.types
  obtain ⟨entries, cell, entriesLength, written⟩ : ∃ entries, t.Filled mem entries := by
    cases isExternal : t.external with
    | true => exact present.supplied isExternal
    | false =>
      have emitted := ((later₂.trans later).made made).own isExternal
      exact emitted.filled overriding.fits (isCode ▸ present.own isExternal)
  have object := new.allocated moment laidOut isRoot (grows w (later₁.trans later₂))
  let x : Stage := ⟨w₁, frame, reg.read, mem, place, isOpen⟩
  obtain ⟨c, isCell, holds⟩ := cell
  obtain ⟨x', rfl, rfl, goes, installed⟩ := Emit.placeTable_does (x := x) rfl hl moment₁ overriding
    inTable (new.calledWith later₁ isOpen) new.apart ⟨new.inside, new.object⟩ object isCell
      holds entriesLength
    written () frame' w' ran
  obtain ⟨code, appends, runs⟩ := goes.point.code
  refine ⟨code, entries, x'.memory, appends, ⟨⟨c, isCell, holds⟩, entriesLength, written⟩, ?_,
    installed.keeps, ?_⟩
  · intro invoke st memory fuel
    obtain ⟨reg', _, _, ran'⟩ := runs im.code.types (grows _ .same) invoke reg st rfl
      memory room fuel
    exact ⟨reg', ran'⟩
  cases installed with
  | shared none memory =>
    refine ⟨fun _ => ?_, fun n d c inTable member declares => ?_⟩
    · rw [memory]
      exact Memory.heap_put (Memory.lt_of_heap object) _
    · obtain ⟨m, found⟩ := lists.replaced inTable member declares
      obtain ⟨i, here⟩ := List.mem_iff_getElem?.mp inTable
      have listed := lists.listed i n d m here found
      simp [none] at listed
  | @own k items some new keeps object table =>
    refine ⟨fun free => ?_, fun n d c inTable member declares => ?_⟩
    · obtain ⟨⟨n, m, slot⟩, listed⟩ := List.exists_mem_of_ne_nil _ some
      obtain ⟨i, d, here, _, c, member, declares⟩ := lists.declared listed
      exact absurd declares (free n d c (List.mem_of_getElem? here) member)
    · exact ⟨k, items, new, object, table.cell, table.ownTable object moment₂ lists (fits some),
        fun apart => table.dispatches rfl apart object moment₂ overriding lists (fits some) later
          isCode⟩

/-- A class with two virtual methods, a class below it that declares the first of them again, and
one further below. -/
@[irreducible] def threeLevels : Program := (Id.run <| StateT.run (do
  let base ← Construction.classDecl "Base" none { table := true }
  let mid ← Construction.classDecl "Mid" (some base) .none
  let leaf ← Construction.classDecl "Leaf" (some mid) .none
  discard <| Construction.method base "first" [] (some .void) [] { virtual := true }
  discard <| Construction.method base "second" [] (some .void) [] { virtual := true }
  let x ← Construction.param "x" .boolean
  discard <| Construction.method mid "first" [x] (some .void) [] { override := true }
  Construction.pushEntry (← Construction.stmt (.classDecl base))
  Construction.pushEntry (← Construction.stmt (.classDecl mid))
  Construction.pushEntry (← Construction.stmt (.classDecl leaf)) : Building Unit) {}).2.program

/-- A body that is given an object. -/
def givenObject : Frame where
  draft := Draft.start ⟨0⟩ [.ptr]
  scope := .empty
  bindings := .root
  returning := .entry

/-- The state once the program is compiled and its last class laid out. -/
def threeLevelsWork : Work :=
  Compile.endOf (Compile.layoutOf ⟨2⟩) (.of threeLevels .ambient {})
    (Compile.endOf (Compile.entry (.ofDepth 20)) (.of threeLevels .ambient {}) .start)

theorem Work.Moment.endOf_layoutOf {s : Setup} {w : Work} (h : Moment s w) (cls : DeclId) :
    Moment s (Compile.endOf (Compile.layoutOf cls) s w) :=
  h.later ((Compile.layoutOf_walks cls).ends h).later

/-- The class in between declares the first virtual method, so an instance of the last class, in the
first allocation of the memory, gets a table of its own and answers calls through the slot of that
method. -/
theorem install_dispatches_threeLevels : ∃ frame' w' layout,
    threeLevelsWork.layouts.get? ⟨2⟩ = some layout ∧
    Emit.installTable (.ofDepth 20) ⟨0⟩ ⟨2⟩ givenObject (.of threeLevels .ambient {})
    threeLevelsWork =
      .ok ((), frame') w' ∧
    ∃ code mem' k items m func, givenObject.draft.Appends ⟨0⟩ code frame'.draft ∧
      (∀ (st : State), st.memory = (Memory.ofModule w'.code).push
      (zeroValue w'.code.types layout.record) →
        code.length ≤ st.fuel → ∃ reg', execInsts w'.code.types (fun _ _ => throw .nestingLimit)
          ((Array.replicate frame'.draft.values.size .undef).setIfInBounds 0 (address 0)) code st =
            .ok reg' { st with memory := mem', fuel := st.fuel - code.length }) ∧
      mem'.heap[0]? = some (.agg [address k]) ∧ mem'.heap[k]? = some (.agg items) ∧
      threeLevels.FirstMethod ⟨4⟩ [⟨2⟩, ⟨1⟩] m ∧ items[4]? = some (.func func) ∧
      Answers (.of threeLevels .ambient {}) w' ⟨w'.code, #[]⟩ ⟨2⟩ m func 0 mem' := by
  have moment : Moment (.of threeLevels .ambient {}) threeLevelsWork :=
    (compile_moment 20 threeLevels .ambient {}).endOf_layoutOf ⟨2⟩
  have laidOut : (threeLevelsWork.layouts.get? ⟨2⟩).map (·.props.length) = some 0 := by
    decide +kernel
  obtain ⟨layout, isLayout, noProps⟩ := Option.map_eq_some_iff.mp laidOut
  have succeeds : (match Emit.installTable (.ofDepth 20) ⟨0⟩ ⟨2⟩ givenObject
      (.of threeLevels .ambient {}) threeLevelsWork with
    | .ok (_, f) _ => decide (0 < f.draft.values.size ∧ f.draft.values.size ≤ 0x100000000)
    | .error _ _ => false) = true := by
    decide +kernel
  generalize ran : Emit.installTable (.ofDepth 20) ⟨0⟩ ⟨2⟩ givenObject
    (.of threeLevels .ambient {}) threeLevelsWork = result at succeeds
  obtain ⟨⟨_, frame'⟩, w'⟩ | ⟨e, w'⟩ := result
  · obtain ⟨room, numbered⟩ := of_decide_eq_true succeeds
    have isRoot : threeLevels.tableRoot ⟨2⟩ = .ok (some ⟨0⟩) := by decide +kernel
    have isChain : threeLevels.classChain ⟨2⟩ = .ok [⟨2⟩, ⟨1⟩, ⟨0⟩] := by decide +kernel
    have virtuals : threeLevels.namedVirtuals ⟨0⟩ =
      .ok [(⟨4⟩, ⟨3⟩), (⟨5⟩, ⟨4⟩)] := by decide +kernel
    have declares : threeLevels.DeclaresMethod ⟨1⟩ ⟨4⟩ := by decide +kernel
    have isOpen : givenObject.draft.Open ⟨0⟩ := ⟨rfl, _, rfl, rfl⟩
    have grounded : givenObject.Grounded threeLevelsWork := by rintro _ ⟨⟩
    obtain ⟨t, isTable, methods, fits, made, runs⟩ :=
      install_dispatches threeLevels .ambient {} 20 moment grounded
      isOpen isRoot isChain virtuals (by decide) isLayout ran numbered
    have isObject : Registers.read ((Array.replicate frame'.draft.values.size .undef).setIfInBounds
      0
        (address 0)) ⟨0⟩ = address 0 := by
      simp [Registers.read, room]
    have new : NewInstance ⟨w'.code, #[]⟩ threeLevelsWork givenObject layout ⟨0⟩
        ((Array.replicate frame'.draft.values.size .undef).setIfInBounds 0 (address 0))
        ((Memory.ofModule w'.code).push (zeroValue w'.code.types layout.record)) 0 0 :=
      ⟨by decide, isObject, Memory.heap_push _ _, by rintro _ ⟨⟩⟩
    have present : t.Present w'.code
        ((Memory.ofModule w'.code).push (zeroValue w'.code.types layout.record)) := by
      refine ⟨fun _ => rfl, fun supplied => ?_⟩
      rw [fits.external, isTable] at supplied
      cases supplied
    obtain ⟨code, entries, mem', appends, -, runs, -, -, own⟩ :=
      runs w' ⟨w'.code, #[]⟩ _ _ 0 0 .same rfl (by simp) new present
    obtain ⟨k, items, _, object, table, -, dispatches⟩ :=
      own ⟨4⟩ ⟨3⟩ ⟨1⟩ (by simp) (by decide) declares
    obtain ⟨m, func, isFirst, holds, answers⟩ :=
      dispatches (by decide) 0 ⟨4⟩ ⟨3⟩ ⟨1⟩ (by simp [methods]) (by decide) declares
    rw [noProps] at object
    rw [fits.header] at holds
    exact ⟨frame', w', layout, isLayout, rfl, code, mem', k, items, m, func,
      appends, runs _, object,
      table, isFirst, holds, answers⟩
  · cases succeeds

/-- A class with a virtual method and a class below it that declares the method again, of which an
instance is made. -/
@[irreducible] def declaredAgain : Program := (Id.run <| StateT.run (do
  let base ← Construction.classDecl "Base" none { table := true }
  let leaf ← Construction.classDecl "Leaf" (some base) .none
  let answering (b : Bool) : Building (List StmtId) := do
    return [← Construction.stmt (.ret (some (← Construction.expr (.bool b))))]
  discard <| Construction.method base "m" [] (some .boolean) (← answering false) { virtual := true }
  discard <| Construction.method leaf "m" [] (some .boolean) (← answering true) { override := true }
  Construction.pushEntry (← Construction.stmt (.classDecl base))
  Construction.pushEntry (← Construction.stmt (.classDecl leaf))
  Construction.pushEntry (← Construction.stmt (.expr (← Construction.expr (.construct leaf []))))
  : Building Unit) {}).2.program

/-- The address in a field of an allocation. -/
def Machine.addressIn (m : Machine) (k i : Nat) : Option Address :=
  (m.load (.ptr ((Region.heap k).root.child i))).toOption.bind Value.address?

/-- Where the entry has the name of the function that calls closures, what stands in the table does
not answer with the method. The instance is in the first allocation and has a table of its own
behind it, with the function that stands for the method, and a closure of the method of the lower
class. Called with the instance, the function gives nothing, while the body of the method gives a
new box. -/
theorem shared_entry_dispatches_nothing : ∃ (unit : CompiledUnit) (m : Machine) (v : Value)
    (func body : FuncId),
    compileUnitWithin 20 declaredAgain .ambient { entryName := closureCallName } = .ok unit ∧
    (Machine.ofModule unit.code).callFunction unit.entry [.null] = (.ok v, m) ∧
    unit.code.functionByName "vtramp.Leaf.m" = some func ∧
    unit.code.functionByName "Leaf.m" = some body ∧
    m.addressIn 0 0 = some (.ptr (Region.heap 1).root) ∧ m.addressIn 1 4 = some (.func func) ∧
    m.addressIn 1 5 = some (.ptr (Region.heap 3).root) ∧ m.addressIn 3 0 = some (.func body) ∧
    m.addressIn 3 1 = some (.ptr (Region.heap 2).root) ∧
    m.addressIn 2 0 = some (.ptr (Region.heap 0).root) ∧
    (∃ u m', m.callFunction func [address 0] = (.ok u, m') ∧ u.kind = .undef) ∧
    ∃ u m', m.callFunction body [address 2] = (.ok u, m') ∧ m'.loadBool u = .ok true := by
  have runs : (compileUnitWithin 20 declaredAgain .ambient
      { entryName := closureCallName }).toOption.any (fun unit =>
      ((Machine.ofModule unit.code).answer? unit.entry [.null]).any fun entered =>
      (unit.code.functionByName "vtramp.Leaf.m").any fun func =>
      (unit.code.functionByName "Leaf.m").any fun body =>
      decide (entered.2.addressIn 0 0 = some (.ptr (Region.heap 1).root) ∧
        entered.2.addressIn 1 4 = some (.func func) ∧
        entered.2.addressIn 1 5 = some (.ptr (Region.heap 3).root) ∧
        entered.2.addressIn 3 0 = some (.func body) ∧
        entered.2.addressIn 3 1 = some (.ptr (Region.heap 2).root) ∧
        entered.2.addressIn 2 0 = some (.ptr (Region.heap 0).root)) &&
      (entered.2.answer? func [address 0]).any (fun a => a.1.kind = .undef) &&
      (entered.2.answer? body [address 2]).any fun a =>
        (a.2.loadBool a.1).toOption = some true) = true := by
    decide +kernel
  simp only [Option.any_eq_true, Bool.and_eq_true, decide_eq_true_eq] at runs
  obtain ⟨unit, compiled, ⟨v, m⟩, entered, func, isFunc, body, isBody, ⟨held, u, nothing, isUndef⟩,
    u', answers, isTrue⟩ := runs
  obtain ⟨table, slot, closure, code, env, object⟩ := held
  exact ⟨unit, m, v, func, body, toOption_eq_some_iff.mp compiled, callFunction_of_answer? entered,
    isFunc, isBody, table, slot, closure, code, env, object,
    ⟨u.1, u.2, callFunction_of_answer? nothing, isUndef⟩,
    u'.1, u'.2, callFunction_of_answer? answers, toOption_eq_some_iff.mp isTrue⟩

end ShapeCompiler
