import ShapeCompiler.Proofs.UnionRecords
import ShapeCompiler.Proofs.Signatures

/-!
# Calls of closures

A call takes the layout of its callee, the parameters and the result from what it knows: the code,
else the environment, else the function type, else the number of arguments. It puts the arguments
into the environment of the closure by that layout.

* `Emit.callShape_code`, `Emit.callShape_environment`, `Emit.callShape_signature`: what is taken
  from where;
* `Emit.Provides`, `Emit.writeArgs_does`: the arguments, coerced to the parameters, go to new cells
  in the first slots, and the other slots stay;
* `closure_call_fills_params`: so a call that passes no more than the called code has parameters
  fills parameter slots only. It takes the parameters and the result for what the code was compiled
  for if it knows the code, or if the function type and the function declare them with the same
  types.

Where only a function type is known, it may have more parameters than the code
(`wider_type_passes_more`).
-/

namespace ShapeCompiler

open Source Code Work Machine

/-! ## What a call knows -/

/-- A type without parameters is read as what is known. -/
def ReadClosed (s : Setup) (w : Work) (b : Bindings) (busy : List DeclId) (t : TypeId) (i : Info) :
    Prop :=
  s.program.Closed t → ReadAs s w b busy t i

theorem ReadClosed.later {s : Setup} {w w' : Work} {b : Bindings} {busy : List DeclId} {t : TypeId}
    {i : Info} (h : ReadClosed s w b busy t i) (later : Later s w w') :
    ReadClosed s w' b busy t i :=
  fun closed => (h closed).later later

namespace Emit

variable {s : Setup} {x : Stage} {w w' : Work} {f f' : Frame} {shape : CallShape}
  {known : ClosureInfo} {arity : Nat}

theorem infoOf_reads (moment : Moment s w) (t : TypeId) :
    Compile.Ends s w (infoOf t f) fun result w' =>
      result.2 = f ∧ ReadClosed s w' f.bindings w.interfacesInProgress t result.1 :=
  lift_ends ((Compile.infoOf_closed moment f.bindings t).mono fun _ _ _ read => ⟨rfl, read⟩)

theorem infosOf_read (moment : Moment s w) (ts : List TypeId) :
    Compile.Ends s w (ts.mapM infoOf f) fun result w' => result.2 = f ∧
      List.Forall₂ (ReadClosed s w' f.bindings w.interfacesInProgress) ts result.1 := by
  induction ts generalizing w with
  | nil => exact .pure ⟨rfl, .nil⟩
  | cons t rest ih =>
    rw [List.mapM_cons]
    refine bind_ends (infoOf_reads moment t) ?_
    rintro i _ w₁ there₁ ⟨rfl, read⟩
    refine bind_ends (ih (moment.later there₁.later)) ?_
    rintro infos _ w₂ there₂ ⟨same, all⟩
    cases same
    rw [there₁.interfaces] at all
    exact .pure ⟨rfl, .cons (read.later there₂.later) all⟩

/-- The parameters and the result of a function type are read. -/
theorem sigInfos_reads (moment : Moment s w) {sig ret : TypeId} {params : List TypeId}
    {origin : Option DeclId} (isFunction : s.program.types.get sig = .function params ret origin) :
    Compile.Ends s w (sigInfos sig f) fun result w' => result.2 = f ∧
      List.Forall₂ (ReadClosed s w' f.bindings w.interfacesInProgress) params result.1.1 ∧
      ReadClosed s w' f.bindings w.interfacesInProgress ret result.1.2 := by
  unfold sigInfos
  rw [lift_bind_apply]
  refine .program_bind ?_
  simp only [isFunction]
  refine bind_ends (infosOf_read moment params) ?_
  rintro infos _ w₁ there₁ ⟨rfl, all⟩
  refine bind_ends (infoOf_reads (moment.later there₁.later) ret) ?_
  rintro i _ w₂ there₂ ⟨same, read⟩
  cases same
  rw [there₁.interfaces] at read
  exact .pure ⟨rfl, all.imp fun _ _ read => read.later there₂.later, read⟩

/-- A call knows its callee by the code, if it knows the code. -/
theorem callShape_code {code : FuncId} {record : ClosureRecord} (isCode : known.code = some code)
    (bound : w.registry.closure? code = some record) (arity : Nat) :
    callShape known arity f s w = .ok (⟨record.env, record.params, record.ret⟩, f) w := by
  unfold callShape
  rw [lift_bind_apply, Compile.registry_bind_apply]
  simp only [isCode, Option.bind_some, bound]
  rfl

/-- Else it knows the callee by the environment, whose slots say what the parameters are. -/
theorem callShape_environment {env : EnvId} {e : Environment}
    (noCode : known.code.bind w.registry.closure? = none) (isEnv : known.env = some env)
    (there : w.registry.env? env = some e)
    (ran : callShape known arity f s w = .ok (shape, f') w') :
    shape.env = env ∧ shape.params = e.paramInfos := by
  have found : Compile.env env s w = .ok e w := by
    rw [Compile.env_apply, there]
  unfold callShape at ran
  rw [lift_bind_apply, Compile.registry_bind_apply] at ran
  simp only [noCode, isEnv] at ran
  cases isSig : known.sig with
  | none =>
    simp only [isSig] at ran
    rw [lift_bind_apply, Compile.bind_of_ok found] at ran
    cases ran
    exact ⟨rfl, rfl⟩
  | some sig =>
    simp only [isSig] at ran
    rw [lift_bind_apply, Compile.bind_of_ok found] at ran
    obtain ⟨_, _, _, _, ran⟩ := of_bind_ok ran
    cases ran
    exact ⟨rfl, rfl⟩

/-- Else it knows the callee by the function type: the layout has a slot for each parameter, and the
parameters and the result are what the types are read as. -/
theorem callShape_signature (moment : Moment s w) {sig ret : TypeId} {params : List TypeId}
    {origin : Option DeclId} (noCode : known.code.bind w.registry.closure? = none)
    (noEnv : known.env = none) (isSig : known.sig = some sig)
    (isFunction : s.program.types.get sig = .function params ret origin) :
    Compile.Ends s w (callShape known arity f) fun result w' =>
      (∃ e, w'.registry.env? result.1.env = some e ∧ e.paramCount = params.length) ∧
      List.Forall₂ (ReadClosed s w' f.bindings w.interfacesInProgress) params result.1.params ∧
      ReadClosed s w' f.bindings w.interfacesInProgress ret result.1.ret := by
  unfold callShape
  rw [lift_bind_apply]
  refine .registry_bind ?_
  simp only [noCode, noEnv, isSig]
  refine bind_ends (sigInfos_reads moment isFunction) ?_
  rintro ⟨infos, i⟩ _ w₁ there₁ ⟨rfl, all, read⟩
  rw [lift_bind_apply]
  refine (Compile.syntheticEnv_ends (moment.later there₁.later) _).bind ?_
  rintro env w₂ there₂ ⟨e, there, count⟩
  exact .pure ⟨⟨e, there, count.trans all.length_eq.symm⟩,
    all.imp fun _ _ read => read.later there₂.later, read.later there₂.later⟩

/-! ## Arguments -/

theorem newCell_does {value : ValueId} {val : Value} (name : String) (moment : Moment s x.work)
    (known : x.Knows value val) :
    Does s x (newCell value name) fun a x' => x'.Knows a (address x.memory.heap.size) ∧
      x'.memory = x.memory.push val ∧ x'.work = x.work := by
  refine .write_bind (.alloc name fun _ admitted => zeroValue_ptr (moment.get_ptr admitted)) ?_
  rintro a q goes ⟨isCell, memory, -⟩
  have stored : q.memory.store (q.values a) (q.values value) = .ok (x.memory.push val) := by
    rw [isCell.value, (goes.knows known).value, memory]
    exact (Memory.store_cell (by simp) val).trans (by rw [Memory.put_push]; rfl)
  refine .write_bind (x := x.moved q) (.store stored) ?_
  rintro _ q' goes' ⟨_, memory', -⟩
  exact .pure ⟨goes'.knows isCell, memory', rfl⟩

/-- An argument as it is given; a missing one is null. -/
def given (arg : Option Operand) : Emit Operand := arg.elim (nullValue .null) pure

theorem argument_eq (l : Lowering) (arg : Option Operand) (info : Info) :
    l.argument arg info = (do boxed (← l.coerce (← given arg) info)) := by
  cases arg with
  | none => rfl
  | some v => simp [Lowering.argument, Lowering.coerced, given]

/-- Wherever the body goes on from the stage, whatever it writes into the allocation `j`: coerced to
what is known of a parameter, the argument becomes a pointer with the property, and what was in
memory stays. -/
def Provides (s : Setup) (l : Lowering) (x : Stage) (j : Nat) (arg : Option Operand) (info : Info)
    (P : Value → Memory → Prop) : Prop :=
  ∀ x' : Stage, x.Goes s x' → x.memory.Keeps [j] x'.memory →
    Does s x' (do boxed (← l.coerce (← given arg) info)) fun value x'' =>
      x'.memory.Keeps [] x''.memory ∧ ∃ val, x''.Knows value val ∧ P val x''.memory

theorem nullValue_does (info : Info) :
    Does s x (nullValue info) fun v x' => v.form = .boxed ∧ v.info = info ∧
      x'.memory = x.memory ∧ x'.Knows v.value .null := by
  refine .write_bind (.const .null "null") ?_
  rintro a p _ ⟨known, memory, -⟩
  exact .pure ⟨rfl, rfl, memory, known⟩

/-- Where nothing but null is known of a value, it is null as well in any form but a union or an
intersection. -/
theorem coerce_null_does {l : Lowering} {v : Operand} {info : Info} (isBoxed : v.form = .boxed)
    (isNull : v.info = .null) (known : x.Knows v.value .null)
    (notUnion : ∀ shape, info ≠ .union shape)
    (notIntersection : ∀ shape, info ≠ .intersection shape) :
    Does s x (do boxed (← coerce l v info)) fun value x' =>
      x'.memory = x.memory ∧ x'.Knows value .null := by
  have kept : Does s x (boxed v) fun value x' => x'.memory = x.memory ∧ x'.Knows value .null := by
    rw [boxed_of_boxed isBoxed]
    exact .pure ⟨rfl, known⟩
  have anew (i : Info) : Does s x (do boxed (← nullValue i)) fun value x' =>
      x'.memory = x.memory ∧ x'.Knows value .null := by
    refine .bind (nullValue_does i) ?_
    rintro u x' - ⟨isBoxed', -, memory, known'⟩
    rw [boxed_of_boxed isBoxed']
    exact .pure ⟨memory, known'⟩
  cases info with
  | void => simpa [coerce, isNull] using kept
  | null => simpa [coerce, isNull] using kept
  | any =>
    have same : (do boxed (← coerce l v .any) : Emit ValueId) = pure v.value := by
      simp only [coerce, isNull, boxed_of_boxed isBoxed, reduceCtorEq, if_false, pure_bind]
      rfl
    rw [same]
    exact .pure ⟨rfl, known⟩
  | union shape => exact absurd rfl (notUnion shape)
  | intersection shape => exact absurd rfl (notIntersection shape)
  | _ => simpa [coerce, coercePlain, isNull, Info.isNullish] using anew _

/-- In place of a missing argument there is null, unless the parameter is a union or an
intersection. -/
theorem Provides.missing {info : Info} (depth j : Nat) (notUnion : ∀ shape, info ≠ .union shape)
    (notIntersection : ∀ shape, info ≠ .intersection shape) :
    Provides s (.ofDepth (depth + 1)) x j none info fun u _ => u = .null := by
  intro x' _ _
  refine .bind (nullValue_does .null) ?_
  rintro v x₁ - ⟨isBoxed, isNull, memory, known⟩
  refine (coerce_null_does isBoxed isNull known notUnion notIntersection).mono ?_
  rintro value x₂ - ⟨memory₂, known₂⟩
  exact ⟨memory₂ ▸ memory ▸ .refl _ _, .null, known₂, rfl⟩

/-- What holds of a value stays when no allocation but the one is written. -/
def Lasts (j : Nat) (P : Value → Memory → Prop) : Prop :=
  ∀ val mem mem', P val mem → mem.Keeps [j] mem' → P val mem'

/-- The first arguments are in new cells in the first slots, each with its property, and the other
slots stay. -/
structure Passed (j : Nat) (items : List Value) (P : Nat → Value → Memory → Prop) (n : Nat)
    (x x' : Stage) : Prop where
  keeps : x.memory.Keeps [j] x'.memory
  slots : ∃ items', x'.memory.heap[j]? = some (.agg items') ∧ items'.length = items.length ∧
    (∀ i, n ≤ i → items'[i]? = items[i]?) ∧
    ∀ i < n, ∃ cell val, x.memory.heap.size ≤ cell ∧ items'[i]? = some (address cell) ∧
      x'.memory.heap[cell]? = some val ∧ P i val x'.memory

variable {j n : Nat} {items : List Value} {P : Nat → Value → Memory → Prop} {x₁ x₂ : Stage}

theorem Passed.none (P : Nat → Value → Memory → Prop)
    (cell : x.memory.heap[j]? = some (.agg items)) : Passed j items P 0 x x :=
  ⟨.refl _ _, items, cell, rfl, fun _ _ => rfl, by simp⟩

/-- What comes with an argument leaves the slots as they are. -/
theorem Passed.mono (h : Passed j items P n x x₁) (lasts : ∀ i < n, Lasts j (P i))
    (keeps : x₁.memory.Keeps [] x₂.memory) :
    Passed j items P n x x₂ := by
  obtain ⟨items', cell, length, later, before⟩ := h.slots
  refine ⟨h.keeps.trans (keeps.weaken (by simp)), items', keeps.heap _ _ (by simp) cell, length,
    later, fun i isPassed => ?_⟩
  obtain ⟨c, val, new, isSlot, holds, has⟩ := before i isPassed
  exact ⟨c, val, new, isSlot, keeps.heap _ _ (by simp) holds,
    lasts i isPassed _ _ _ has (keeps.weaken (by simp))⟩

/-- One more argument. -/
theorem Passed.next {env value : ValueId} {val : Value} (record : TyId)
    (moment : Moment s x₁.work) (inside : j < x.memory.heap.size) (h : Passed j items P n x x₁)
    (lasts : ∀ i ≤ n, Lasts j (P i)) (isEnv : x₁.Knows env (address j)) (more : n < items.length)
    (isValue : x₁.Knows value val) (has : P n val x₁.memory) :
    Does s x₁ (do
      let cell ← newCell value "arg"
      storeField record env n cell) fun _ x' => Passed j items P (n + 1) x x' := by
  obtain ⟨items', cell, length, later, before⟩ := h.slots
  refine .bind (newCell_does "arg" moment isValue) ?_
  rintro a x₂ goes₂ ⟨isCell, memory₂, work₂⟩
  have cell₂ : x₂.memory.heap[j]? = some (.agg items') := by
    rw [memory₂]
    exact Memory.heap_push_lt _ cell
  refine (storeField_does record (goes₂.knows isEnv).value cell₂ (by omega)).mono ?_
  rintro _ x₃ goes₃ ⟨work₃, v, memory₃, isStored⟩
  obtain rfl : v = address x₁.memory.heap.size := (isStored isCell.inside).trans isCell.value
  have grown : x.memory.heap.size ≤ x₁.memory.heap.size := h.keeps.size
  have kept₂ : x₁.memory.Keeps [j] x₂.memory := by
    rw [memory₂]
    exact (Memory.keeps_push _ _).weaken (by simp)
  have kept₃ : x₂.memory.Keeps [j] x₃.memory := by
    rw [memory₃]
    exact Memory.keeps_put _ _ _
  refine ⟨h.keeps.trans (kept₂.trans kept₃), items'.set n (address x₁.memory.heap.size), ?_,
    by simpa using length, ?_, ?_⟩
  · rw [memory₃]
    exact Memory.heap_put (Memory.lt_of_heap cell₂) _
  · intro i after
    rw [List.getElem?_set_ne (by omega)]
    exact later i (by omega)
  · intro i isPassed
    by_cases isLast : i = n
    · subst isLast
      refine ⟨x₁.memory.heap.size, val, grown, ?_, ?_,
        lasts i (Nat.le_refl _) _ _ _ has (kept₂.trans kept₃)⟩
      · rw [List.getElem?_set_self (by omega)]
      · apply kept₃.heap _ _ (by simp; omega)
        rw [memory₂]
        exact Memory.heap_push _ _
    · obtain ⟨c, val', new, isSlot, holds, has'⟩ := before i (by omega)
      refine ⟨c, val', new, ?_, ?_, lasts i (by omega) _ _ _ has' (kept₂.trans kept₃)⟩
      · rw [List.getElem?_set_ne (by omega)]
        exact isSlot
      · exact kept₃.heap _ _ (by simp; omega) (kept₂.heap _ _ (by simp; omega) holds)

/-- Arguments go to new cells in the first slots. -/
theorem writeArgs_does {e : Environment} {env : ValueId} {args : List Operand} {params : List Info}
    {l : Lowering} (moment : Moment s x.work) (isEnv : x.Knows env (address j))
    (cell : x.memory.heap[j]? = some (.agg items)) (room : e.paramCount ≤ items.length)
    (supplied : ∀ i < e.paramCount, Provides s l x j args[i]? (params[i]?.getD .any) (P i))
    (lasts : ∀ i < e.paramCount, Lasts j (P i)) :
    Does s x (writeArgs l e env params args) fun _ x' => Passed j items P e.paramCount x x' := by
  have inside := Memory.lt_of_heap cell
  have passes := Does.forM (s := s) (x := x)
    (k := fun i => do
      let value ← l.argument args[i]? (params[i]?.getD .any)
      let cell ← newCell value "arg"
      storeField e.record env i cell)
    (fun done x' => Passed j items P done.length x x') (List.range e.paramCount) (.none P cell) ?_
  · rw [List.length_range] at passes
    exact passes
  · intro done i rest parts x₁ goes passed
    obtain ⟨rfl, more⟩ := eq_of_range_eq parts
    rw [argument_eq]
    refine .bind (supplied _ more x₁ goes passed.keeps) ?_
    rintro value x₂ goes₂ ⟨keeps, val, isValue, has⟩
    have passed₂ := passed.mono (fun i before => lasts i (by omega)) keeps
    have next := passed₂.next e.record (moment.later (goes.trans goes₂).later) inside
      (fun i before => lasts i (by omega)) ((goes.trans goes₂).knows isEnv) (by omega) isValue has
    simpa using next

theorem Provides.next {l : Lowering} {arg : Option Operand} {info : Info}
    {P : Value → Memory → Prop} (h : Provides s l x j arg info P) (goes : x.Goes s x₁)
    (keeps : x.memory.Keeps [j] x₁.memory) : Provides s l x₁ j arg info P :=
  fun x' goes' keeps' => h x' (goes.trans goes') (keeps.trans keeps')

theorem coerce_self (l : Lowering) (v : Operand) : coerce l v v.info = pure v := by
  simp [coerce]

/-- An argument that has the form of its parameter is passed as it is. -/
theorem Provides.same {v : Operand} {val : Value} (depth j : Nat) (isBoxed : v.form = .boxed)
    (isValue : x.Knows v.value val) :
    Provides s (.ofDepth (depth + 1)) x j (some v) v.info fun u _ => u = val := by
  intro x' goes _
  have same : (Lowering.ofDepth (depth + 1)).coerce v v.info = pure v := coerce_self _ v
  simp only [given, Option.elim_some, pure_bind, same, boxed_of_boxed isBoxed]
  exact .pure ⟨.refl _ _, val, goes.knows isValue, rfl⟩

/-- Puts the arguments of a call into the environment of the closure. -/
def passArgs (l : Lowering) (ptr : ValueId) (e : Environment) (params : List Info)
    (args : List Operand) : Emit Unit := do
  let env ← loadField startModule.1.closure ptr 1 "env"
  writeArgs l e env params args

theorem callShape_still (known : ClosureInfo) (arity : Nat) : Still (callShape known arity) := by
  have info (t : TypeId) : Still (infoOf t) :=
    .bind (fun _ _ _ _ _ _ ran => by cases ran; rfl) fun _ => .lift _
  have infos (sig : TypeId) : Still (sigInfos sig) := by
    refine .bind (.lift _) fun p => ?_
    split
    · exact .bind (.mapM info _) fun _ => .bind (info _) fun _ => .pure _
    · exact .lift _
  refine .bind (.lift _) fun r => ?_
  split
  · exact .pure _
  · exact .bind (.lift _) fun _ => .bind (infos _) fun _ => .pure _
  · exact .bind (.lift _) fun _ => .pure _
  · exact .bind (infos _) fun _ => .bind (.lift _) fun _ => .pure _
  · exact .bind (.lift _) fun _ => .pure _

/-- A call puts the arguments into the environment of the closure by the layout that it takes, and
calls. -/
theorem closureCall_shaped {p : Program} {r : Resolver} {c : Config} {l : Lowering} {ptr : ValueId}
    {args : List Operand} {e : Environment}
    (taken : callShape known args.length f (.of p r c) w = .ok (shape, f) w')
    (isEnv : w'.registry.env? shape.env = some e) :
    closureCall l ⟨ptr, known⟩ args f (.of p r c) w = (do
      passArgs l ptr e shape.params args
      return .boxed (← callPtr startModule.1.call [ptr] "call") shape.ret : Emit Operand)
        f (.of p r c) w' := by
  have found : Compile.env shape.env (.of p r c) w' = .ok e w' := by
    rw [Compile.env_apply, isEnv]
  unfold closureCall
  rw [bind_of_ok taken, lift_bind_apply, Compile.bind_of_ok found]
  simp only [passArgs, bind_assoc]
  rfl

theorem passArgs_does {e : Environment} {ptr : ValueId} {args : List Operand} {params : List Info}
    {l : Lowering} {code : FuncId} {k : Nat} (moment : Moment s x.work)
    (isClosure : x.Knows ptr (address k))
    (closure : x.memory.heap[k]? = some (.agg [.func code, address j]))
    (cell : x.memory.heap[j]? = some (.agg items)) (room : e.paramCount ≤ items.length)
    (supplied : ∀ i < e.paramCount, Provides s l x j args[i]? (params[i]?.getD .any) (P i))
    (lasts : ∀ i < e.paramCount, Lasts j (P i)) :
    Does s x (passArgs l ptr e params args) fun _ x' => Passed j items P e.paramCount x x' := by
  refine .bind (loadField_does (i := 1) startModule.1.closure "env" isClosure.value closure rfl
    (by simp)) ?_
  rintro env x₁ goes ⟨isEnv, memory, work⟩
  have keeps : x.memory.Keeps [j] x₁.memory := memory ▸ .refl _ _
  refine (writeArgs_does (work ▸ moment) isEnv (memory ▸ cell) room
    (fun i isParam => (supplied i isParam).next goes keeps) lasts).mono ?_
  rintro _ x₂ - passed
  refine ⟨memory ▸ passed.keeps, ?_⟩
  obtain ⟨items', there, length, later, before⟩ := passed.slots
  exact ⟨items', there, length, later, memory ▸ before⟩

end Emit

/-- The parameter slots come first, and no other slot is one. -/
theorem Environment.Formed.isParam_iff {p : Program} {w : Work} {d : DeclId} {e : Environment}
    (h : e.Formed p w d) {i : Nat} {slot : EnvSlot} (there : e.slots[i]? = some slot) :
    slot.origin = .param ↔ i < e.paramCount := by
  obtain ⟨params, -, formals⟩ := h.formals
  constructor
  · intro isParam
    by_contra tail
    have inside : slot ∈ e.slots.drop e.paramCount := by
      apply List.mem_of_getElem? (i := i - e.paramCount)
      rw [List.getElem?_drop, Nat.add_sub_cancel' (by omega)]
      exact there
    have order := h.order
    generalize e.slots.drop e.paramCount = tail at inside order
    obtain ⟨captured, _, receiver, outer⟩ := order
    simp only [List.mem_append] at inside
    rcases inside with (isCapture | isReceiver) | isOuter
    · simp [captured _ isCapture] at isParam
    · simp [receiver _ isReceiver] at isParam
    · simp [outer _ isOuter] at isParam
  · intro first
    have inside : slot ∈ e.slots.take e.paramCount := by
      apply List.mem_of_getElem? (i := i)
      rw [List.getElem?_take_of_lt first]
      exact there
    have all : ∀ slot ∈ e.slots.take e.paramCount, slot.origin = .param := by
      generalize e.slots.take e.paramCount = front at formals
      clear inside
      induction formals with
      | nil => simp
      | cons one _ ih => simpa using ⟨one.origin, ih⟩
    exact all slot inside

/-- The value is the address of a closure of compiled code, and its environment has a cell for each
slot. -/
structure Stage.HoldsClosure (x : Stage) (ptr : ValueId) (code : FuncId) (record : ClosureRecord)
    (e : Environment) (j : Nat) (items : List Value) : Prop where
  bound : x.work.registry.closure? code = some record
  layout : x.work.registry.env? record.env = some e
  owned : ∃ d, e.owner = some d
  pointer : ∃ k, x.Knows ptr (address k) ∧ x.memory.heap[k]? = some (.agg [.func code, address j])
  cell : x.memory.heap[j]? = some (.agg items)
  length : items.length = e.slots.length

/-- What a call takes the code for, by what it knows: for what the code was compiled for if it knows
the code, and as far as the function declares the same types if it knows a function type. -/
structure CallShape.Fits (s : Setup) (w : Work) (known : ClosureInfo) (code : FuncId)
    (record : ClosureRecord) (e called : Environment) (shape : CallShape) : Prop where
  byCode : known.code = some code → shape = ⟨record.env, record.params, record.ret⟩ ∧ called = e
  byEnvironment : known.code = none → known.env = some record.env →
    shape.params = e.paramInfos ∧ called = e
  byType : ∀ sig params ret origin, known = { sig := some sig } →
    s.program.types.get sig = .function params ret origin → called.paramCount = params.length ∧
    ∀ cls m c, AskedSince s .start w cls m c → c.func = code →
      (∀ i t, params[i]? = some t → s.program.ParamType m i t → s.program.Closed t →
        shape.params[i]? = record.params[i]?) ∧
      (s.program.ResultType m ret → s.program.Closed ret → shape.ret = record.ret)

theorem Emit.callShape_fits {s : Setup} {known : ClosureInfo} {arity : Nat} {w w' : Work}
    {f f' : Frame} {code : FuncId} {record : ClosureRecord} {e called : Environment}
    {shape : CallShape} (begun : Reaches s .start w) (later : Reaches s w w')
    (bound : w.registry.closure? code = some record) (isEnv : w.registry.env? record.env = some e)
    (ran : callShape known arity f s w = .ok (shape, f') w')
    (layout : w'.registry.env? shape.env = some called) :
    shape.Fits s w known code record e called := by
  have isEnv' := later.later.extends.registry.env _ _ isEnv
  refine ⟨fun isCode => ?_, fun noCode isKnown => ?_, ?_⟩
  · rw [callShape_code isCode bound] at ran
    cases ran
    exact ⟨rfl, Option.some.inj (layout.symm.trans isEnv')⟩
  · obtain ⟨same, params⟩ := callShape_environment (by simp [noCode]) isKnown isEnv ran
    rw [same] at layout
    exact ⟨params, Option.some.inj (layout.symm.trans isEnv')⟩
  · rintro sig params ret origin rfl isFunction
    obtain ⟨there, ⟨e', isCalled, count⟩, reads, result⟩ :=
      (callShape_signature begun.later rfl rfl rfl isFunction).of_ok ran
    cases layout.symm.trans isCalled
    refine ⟨count, fun cls m c asked isFunc => ?_⟩
    subst isFunc
    have noneBusy : w.interfacesInProgress = [] := begun.interfaces
    rw [noneBusy] at reads result
    obtain ⟨-, same, resultRead⟩ := (asked.later later.later).closure_read (begun.trans later)
      (later.later.extends.registry.closure _ _ bound)
    rw [same]
    refine ⟨fun i t here isParam closed => ?_, fun isResult closed => ?_⟩
    · have inside : i < shape.params.length :=
        reads.length_eq ▸ (List.getElem?_eq_some_iff.mp here).1
      have there' := List.getElem?_eq_getElem inside
      obtain ⟨b, info, isInfo, read⟩ := asked.param_read isParam closed
      rw [isInfo, there', (Compile.of_forall₂ reads here there' closed).unique
        (read.later later.later) (.of_closed closed)]
    · obtain ⟨b, read⟩ := resultRead ret isResult closed
      exact (result closed).unique read (.of_closed closed)

/-- A call of a closure, whatever it knows of it: the code, the environment or a function type. If
it passes no more than the code has parameters, then the arguments, each coerced to what is known of
its parameter, go to new cells in the parameter slots of these numbers; every other slot of the
environment keeps what it held, and so does all other memory. The call takes the parameters and the
result for what the code was compiled for, where it knows the code or where the function declares
the types of the function type. -/
theorem closure_call_fills_params (p : Program) (r : Resolver) (config : Config) (l : Lowering)
    (known : ClosureInfo) {x : Stage} {ptr : ValueId} {code : FuncId} {record : ClosureRecord}
    {e called : Environment} {j : Nat} {items : List Value} {args : List Operand}
    {shape : CallShape}
    {frame : Frame} {w : Work} {P : Nat → Value → Memory → Prop}
    (begun : Reaches (.of p r config) .start x.work) (grounded : x.frame.Grounded x.work)
    (holds : x.HoldsClosure ptr code record e j items)
    (taken : Emit.callShape known args.length x.frame (.of p r config) x.work =
    .ok (shape, frame) w)
    (layout : w.registry.env? shape.env = some called) (fewer : called.paramCount ≤ e.paramCount)
    (supplied : ∀ i < called.paramCount, Emit.Provides (.of p r config) l (x.later w) j args[i]?
      (shape.params[i]?.getD .any) (P i))
    (lasts : ∀ i < called.paramCount, Emit.Lasts j (P i)) :
    Emit.closureCall l ⟨ptr, known⟩ args x.frame (.of p r config) x.work = (do
      Emit.passArgs l ptr called shape.params args
      return .boxed (← Emit.callPtr startModule.1.call [ptr] "call") shape.ret : Emit Operand)
        x.frame (.of p r config) w ∧
    Emit.Does (.of p r config) (x.later w) (Emit.passArgs l ptr called shape.params args)
      (fun _ x' => Emit.Passed j items P called.paramCount (x.later w) x') ∧
    (∀ i slot, e.slots[i]? = some slot → (slot.origin = .param ↔ i < e.paramCount)) ∧
    (∃ key c, x.work.functions.get? key = some c ∧ c.func = code ∧
    record.Of (.of p r config) key c) ∧
    shape.Fits (.of p r config) x.work known code record e called := by
  have there := ((Emit.callShape_walks known args.length).ends begun.later grounded).of_ok taken
    |>.1
  obtain rfl := Emit.callShape_still _ _ _ _ _ _ _ _ taken
  obtain ⟨d, owned⟩ := holds.owned
  obtain ⟨k, isClosure, closure⟩ := holds.pointer
  have formed := Moment.formed begun.later holds.layout owned
  have few : e.paramCount ≤ e.slots.length := by
    rw [formed.count]
    exact List.length_filter_le _ _
  have moment : Moment (.of p r config) (x.later w).work := begun.later.trans there.later
  refine ⟨Emit.closureCall_shaped taken layout, ?_, fun i slot here => formed.isParam_iff here,
    (begun.registered (start_registered _)).closures _ _ holds.bound,
    Emit.callShape_fits begun there holds.bound holds.layout taken layout⟩
  exact Emit.passArgs_does moment isClosure closure holds.cell
    (by have := holds.length; omega) supplied
    lasts

/-- A function with a variable, and an arrow of two parameters that reads it and is called through a
type of two parameters. -/
@[irreducible] def declaredCallback : Program := (Id.run <| StateT.run (do
  let type ← Construction.functionType [.boolean, .boolean] .boolean none
  let a ← Construction.param "a" .boolean
  let b ← Construction.param "b" .boolean
  let (arrow, _) ← Construction.arrow [] [a, b] (some .boolean) (.expr (← Construction.ident "x"))
  let (x, _) ← Construction.bind "x" none (some (← Construction.expr (.bool true)))
  let (f, _) ← Construction.bind "f" (some type) (some arrow)
  let call ← Construction.expr (.call (← Construction.ident "f")
    [← Construction.expr (.bool false), ← Construction.expr (.bool false)] none)
  let outer ← Construction.function "outer" [] [] none [x, f, ← Construction.stmt (.expr call)]
  let callOuter ← Construction.expr (.call (← Construction.ident "outer") [] (some outer))
  Construction.pushEntry (← Construction.stmt (.function outer))
  Construction.pushEntry (← Construction.stmt (.expr callOuter)) : Building Unit) {}).2.program

/-- The state once the program is compiled. -/
def declaredCallbackMade : Work :=
  Compile.endOf ((Lowering.ofDepth 20).block declaredCallback.entry topFrame)
    (.of declaredCallback .ambient {}) .start

/-- The state once the body of the arrow is asked for again. -/
def declaredCallbackWork : Work :=
  Compile.endOf ((Lowering.ofDepth 20).body (.function ⟨2⟩) none [])
    (.of declaredCallback .ambient {}) declaredCallbackMade

/-- A body that is given a closure of the arrow, with the environment behind it, and a truth
value. -/
def givenCallback : Stage where
  work := declaredCallbackWork
  frame := { givenObject with draft := Draft.start ⟨0⟩ [.ptr, .ptr] }
  values := fun v => address (if v.raw = 0 then 0 else 2)
  memory := { heap := #[.agg [.func ⟨2⟩, address 1], .agg [.null, .null, address 0], .bool true] }
  place := ⟨0⟩
  isOpen := ⟨rfl, _, rfl, rfl⟩

/-- What is known of a function of the declared type. -/
def declaredType : ClosureInfo := { sig := some ⟨7⟩ }

/-- The state once a call through the declared type has taken its layout. -/
def declaredCallbackCalled : Work :=
  Compile.endOf (Emit.callShape declaredType 1 givenCallback.frame)
    (.of declaredCallback .ambient {}) declaredCallbackWork

/-- Called through the declared type with one argument, the arrow gets this one and null for the
other, and the captured variable stays. -/
theorem closure_call_fills_params_callback : ∃ shape called frame record,
    Emit.callShape declaredType 1 givenCallback.frame (.of declaredCallback .ambient {})
      givenCallback.work = .ok (shape, frame) declaredCallbackCalled ∧
    declaredCallbackWork.registry.closure? ⟨2⟩ = some record ∧
    shape.params[1]? = record.params[1]? ∧ shape.ret = record.ret ∧
    Emit.Does (.of declaredCallback .ambient {}) (givenCallback.later declaredCallbackCalled)
      (Emit.passArgs (.ofDepth 20) ⟨0⟩ called shape.params [.boxed ⟨1⟩ .boolean]) fun _ x' =>
        ∃ items a b, x'.memory.heap[1]? = some (.agg items) ∧ items[0]? = some (address a) ∧
          x'.memory.heap[a]? = some (address 2) ∧ items[1]? = some (address b) ∧
          x'.memory.heap[b]? = some .null ∧ items[2]? = some (address 0) := by
  have walks := Lowering.ofDepth_walks (s := .of declaredCallback .ambient {}) 20
  have begun := Moment.reaches_top (s := .of declaredCallback .ambient {}) .same 20
    declaredCallback.entry
  -- the arrow is compiled, and a closure of it is recorded
  obtain ⟨c, made, isMade⟩ := Compile.of_gives (show Compile.gives
    ((Lowering.ofDepth 20).body (.function ⟨2⟩) none []) (.of declaredCallback .ambient {})
    declaredCallbackMade
    (fun c => decide (c = ⟨⟨2⟩, ⟨1⟩, [.boolean, .boolean], .boolean⟩)) by decide +kernel)
  obtain rfl := of_decide_eq_true isMade
  have there := (walks.body begun.later (.function ⟨2⟩) none []).of_ok made |>.1
  have asked : AskedSince (.of declaredCallback .ambient {}) .start declaredCallbackWork none ⟨2⟩
      ⟨⟨2⟩, ⟨1⟩, [.boolean, .boolean], .boolean⟩ :=
    ⟨_, _, _, walks, begun.later, begun, made, .same⟩
  have bound : declaredCallbackWork.registry.closure? ⟨2⟩ =
      some ⟨some ⟨2⟩, ⟨1⟩, [.boolean, .boolean], .boolean⟩ := by
    decide +kernel
  have laid : (declaredCallbackWork.registry.env? ⟨1⟩).map (fun e =>
      (e.owner, e.paramCount, e.slots.length)) = some (some ⟨2⟩, 2, 3) := by
    decide +kernel
  obtain ⟨e, isEnv, fields⟩ := Option.map_eq_some_iff.mp laid
  simp only [Prod.mk.injEq] at fields
  obtain ⟨owned, two, three⟩ := fields
  have holds : givenCallback.HoldsClosure ⟨0⟩ ⟨2⟩
    ⟨some ⟨2⟩, ⟨1⟩, [.boolean, .boolean], .boolean⟩ e 1
      [.null, .null, address 0] :=
    ⟨bound, isEnv, ⟨⟨2⟩, owned⟩, ⟨0, ⟨Nat.zero_lt_two, rfl⟩, rfl⟩, rfl, three.symm⟩
  -- the call takes a layout of two parameters
  obtain ⟨⟨shape, frame⟩, taken, isShape⟩ := Compile.of_gives (show Compile.gives
    (Emit.callShape declaredType 1 givenCallback.frame) (.of declaredCallback .ambient {})
    declaredCallbackWork (fun result => decide (result.1 = ⟨⟨2⟩, [.boolean, .boolean], .boolean⟩))
    by decide +kernel)
  obtain rfl : shape = ⟨⟨2⟩, [.boolean, .boolean], .boolean⟩ := of_decide_eq_true isShape
  have synthetic : (declaredCallbackCalled.registry.env? ⟨2⟩).map (·.paramCount) = some 2 := by
    decide +kernel
  obtain ⟨called, isCalled, count⟩ := Option.map_eq_some_iff.mp synthetic
  have isBoolean : declaredCallback.types.get .boolean = .boolean := by decide +kernel
  have closed : declaredCallback.Closed .boolean :=
    Source.Program.closed_of_plain (by simp [isBoolean]) (by simp [isBoolean]) (by simp [isBoolean])
      (by simp [isBoolean])
  have isArg : (givenCallback.later declaredCallbackCalled).Knows ⟨1⟩ (address 2) :=
    ⟨Nat.one_lt_two, rfl⟩
  have supplied : ∀ i < called.paramCount, Emit.Provides (.of declaredCallback .ambient {})
      (.ofDepth 20) (givenCallback.later declaredCallbackCalled) 1
      [(.boxed ⟨1⟩ .boolean : Operand)][i]? ([.boolean, .boolean][i]?.getD .any)
      fun u _ => u = if i = 0 then address 2 else .null := by
    intro i isParam
    rcases i with _ | _ | i
    · exact Emit.Provides.same 19 1 rfl isArg
    · exact Emit.Provides.missing 19 1 (by simp) (by simp)
    · omega
  obtain ⟨-, does, -, -, fits⟩ := closure_call_fills_params declaredCallback
    .ambient {} (.ofDepth 20)
    declaredType (begun.trans there) (by rintro _ ⟨⟩) holds taken isCalled (by omega) supplied
    fun i _ _ _ _ same _ => same
  obtain ⟨-, agrees⟩ := fits.byType ⟨7⟩ [.boolean, .boolean] .boolean none rfl (by decide +kernel)
  obtain ⟨params, result⟩ := agrees none ⟨2⟩ _ asked rfl
  refine ⟨_, called, frame, _, taken, bound, params 1 .boolean rfl (by decide +kernel) closed,
    result (by decide +kernel) closed, does.mono ?_⟩
  rintro _ x' - passed
  obtain ⟨items, there, -, later, before⟩ := passed.slots
  obtain ⟨a, _, -, isFirst, holdsFirst, rfl⟩ := before 0 (by omega)
  obtain ⟨b, _, -, isSecond, holdsSecond, rfl⟩ := before 1 (by omega)
  exact ⟨items, a, b, there, isFirst, holdsFirst, isSecond, holdsSecond, later 2 (by omega)⟩

/-- A function with a variable, and an arrow of one parameter that reads it and is called through a
type of two parameters. -/
@[irreducible] def fewerParams : Program := (Id.run <| StateT.run (do
  let type ← Construction.functionType [.boolean, .boolean] .boolean none
  let a ← Construction.param "a" .boolean
  let (arrow, _) ← Construction.arrow [] [a] (some .boolean) (.expr (← Construction.ident "x"))
  let (x, _) ← Construction.bind "x" none (some (← Construction.expr (.bool true)))
  let (f, _) ← Construction.bind "f" (some type) (some arrow)
  let call ← Construction.expr (.call (← Construction.ident "f")
    [← Construction.expr (.bool false), ← Construction.expr (.bool false)] none)
  let outer ← Construction.function "outer" [] [] none [x, f, ← Construction.stmt (.expr call)]
  let callOuter ← Construction.expr (.call (← Construction.ident "outer") [] (some outer))
  Construction.pushEntry (← Construction.stmt (.function outer))
  Construction.pushEntry (← Construction.stmt (.expr callOuter)) : Building Unit) {}).2.program

/-- The state once the program is compiled. -/
def fewerParamsWork : Work :=
  Compile.endOf (Compile.entry (.ofDepth 20)) (.of fewerParams .ambient {}) .start

/-- The allocation that an address leads to. -/
def heapIndex? : Value → Option Nat
  | .ptr ⟨.heap k, []⟩ => some k
  | _ => none

theorem eq_address {v : Value} {k : Nat} (h : heapIndex? v = some k) : v = address k := by
  unfold heapIndex? at h
  split at h
  · cases h
    rfl
  · cases h

/-- What is behind the second address of a record in memory, if it is a truth value. -/
def secondCell? (st : State) (record : Nat) : Option Bool :=
  match st.memory.heap[record]? with
  | some (.agg items) => (items[1]?.bind heapIndex?).bind fun cell =>
    (st.memory.heap[cell]?.bind heapIndex?).bind fun box =>
      match st.memory.heap[box]? with
      | some (.bool b) => some b
      | _ => none
  | _ => none

/-- The state in which a run was about to make a call. -/
def atCall? {α : Type} : EStateM.Result Trap State α → Option State
  | .error .nestingLimit st => some st
  | _ => none

theorem eq_of_atCall? {α : Type} {r : EStateM.Result Trap State α} {st : State}
    (h : atCall? r = some st) : r = .error .nestingLimit st := by
  unfold atCall? at h
  split at h
  · cases h
    rfl
  · cases h

/-- Through the type of two parameters the second argument takes the slot of the captured variable:
this is `true` and never assigned, and reads as `false` when the arrow is called. -/
theorem wider_type_passes_more : ∃ record e fn body k st items cell box,
    fewerParamsWork.registry.closure? ⟨3⟩ = some record ∧
    fewerParamsWork.registry.env? record.env = some e ∧
    e.slots.map (·.origin) = [.param, .capture] ∧
    fewerParamsWork.code.function? ⟨2⟩ = some fn ∧ fn.body = some body ∧ body.blocks[0]? = some k ∧
    execInsts fewerParamsWork.code.types (fun _ _ => throw .nestingLimit)
      (Array.replicate body.values.size .undef) k.insts.toList { memory := {}, fuel := 100 } =
        .error .nestingLimit st ∧
    st.memory.heap[2]? = some (.agg items) ∧ items[1]? = some (address cell) ∧
    st.memory.heap[cell]? = some (address box) ∧ st.memory.heap[box]? = some (.bool false) := by
  have laid : (fewerParamsWork.registry.closure? ⟨3⟩).bind (fun record =>
      (fewerParamsWork.registry.env? record.env).map fun e => e.slots.map (·.origin)) =
      some [.param, .capture] := by
    decide +kernel
  have runs : (fewerParamsWork.code.function? ⟨2⟩).bind (fun fn => fn.body.bind fun body =>
      (body.blocks[0]?).bind fun k =>
        (atCall? (execInsts fewerParamsWork.code.types (fun _ _ => throw .nestingLimit)
          (Array.replicate body.values.size .undef) k.insts.toList
          { memory := {}, fuel := 100 })).bind (secondCell? · 2)) = some false := by
    decide +kernel
  obtain ⟨record, bound, laid⟩ := Option.bind_eq_some_iff.mp laid
  obtain ⟨e, isEnv, origins⟩ := Option.map_eq_some_iff.mp laid
  obtain ⟨fn, isFunction, runs⟩ := Option.bind_eq_some_iff.mp runs
  obtain ⟨body, has, runs⟩ := Option.bind_eq_some_iff.mp runs
  obtain ⟨k, isBlock, runs⟩ := Option.bind_eq_some_iff.mp runs
  obtain ⟨st, stopped, runs⟩ := Option.bind_eq_some_iff.mp runs
  have ran := eq_of_atCall? stopped
  unfold secondCell? at runs
  split at runs
  · rename_i items isRecord
    obtain ⟨cell, isCell, runs⟩ := Option.bind_eq_some_iff.mp runs
    obtain ⟨box, isBox, runs⟩ := Option.bind_eq_some_iff.mp runs
    obtain ⟨v, second, isCell⟩ := Option.bind_eq_some_iff.mp isCell
    obtain ⟨v', held, isBox⟩ := Option.bind_eq_some_iff.mp isBox
    obtain rfl := eq_address isCell
    obtain rfl := eq_address isBox
    split at runs
    · rename_i b isBool
      cases runs
      exact ⟨record, e, fn, body, k, st, items, cell, box, bound, isEnv, origins, isFunction, has,
        isBlock, ran, isRecord, second, held, isBool⟩
    · cases runs
  · cases runs

end ShapeCompiler
