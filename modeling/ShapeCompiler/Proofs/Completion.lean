import ShapeCompiler.Proofs.Evaluation
import ShapeCompiler.Proofs.Fuel
import ShapeCompiler.Proofs.MethodValues

/-!
# Calls that come to an end

What a call does is told without its fuel: it comes to its end unless the fuel runs out or calls
nest too deep on the way.

* `Run.Completes`: the step comes to a result with a property, unless it hits a limit;
* `Yields`: from such a memory, a call gives a value and leaves a memory;
* `Point.Passes`: code that may call functions leads from one point of a body to another;
* `yields_of_passes`: a body of one block yields what its code leads to.
-/

namespace ShapeCompiler

open Source Code Work Machine

namespace Machine

/-! ## Steps -/

/-- The fuel ran out, or calls nested too deep. -/
def Trap.IsLimit (t : Trap) : Prop := t = .outOfFuel ∨ t = .stackOverflow

instance (t : Trap) : Decidable t.IsLimit := inferInstanceAs (Decidable (_ ∨ _))

/-- Unless the step hits a limit, it comes to a result with the property. -/
def Run.Completes {α : Type} (m : Run α) (st : State) (Q : α → State → Prop) : Prop :=
  match m st with
  | .ok a st' => Q a st'
  | .error t _ => t.IsLimit

namespace Run.Completes

variable {α β : Type} {st : State}

theorem of_ok {m : Run α} {Q : α → State → Prop} {a : α} {st' : State} (ran : m st = .ok a st')
    (h : Q a st') : m.Completes st Q := by
  unfold Completes
  rw [ran]
  exact h

theorem of_limit {m : Run α} {Q : α → State → Prop} {t : Trap} {st' : State}
    (ran : m st = .error t st') (isLimit : t.IsLimit) : m.Completes st Q := by
  unfold Completes
  rw [ran]
  exact isLimit

theorem mono {m : Run α} {Q R : α → State → Prop} (h : m.Completes st Q)
    (weaker : ∀ a st', Q a st' → R a st') : m.Completes st R := by
  unfold Completes at h ⊢
  split at h
  · exact weaker _ _ h
  · exact h

theorem bind {m : Run α} {k : α → Run β} {Q : α → State → Prop} {R : β → State → Prop}
    (first : m.Completes st Q) (rest : ∀ a st', Q a st' → (k a).Completes st' R) :
    (m >>= k).Completes st R := by
  unfold Completes at first
  split at first
  · rename_i a st' ran
    have next := rest a st' first
    unfold Completes at next ⊢
    simpa only [Bind.bind, EStateM.bind, ran] using next
  · rename_i t st' ran
    exact of_limit (by simp only [Bind.bind, EStateM.bind, ran]; rfl) first

/-- Code that runs wherever there is fuel enough completes. -/
theorem of_runs {types : TypeTable} {size : Nat} {ρ ρ' : Valuation} {mem mem' : Memory}
    {code : List Inst} (h : Runs types size ρ mem code ρ' mem') (invoke : Invoke) {r : Registers}
    (values : r.read = ρ) (memory : st.memory = mem) (room : size ≤ r.size) :
    (execInsts types invoke r code).Completes st fun r' st' =>
      r'.read = ρ' ∧ r'.size = r.size ∧ st'.memory = mem' ∧ st'.depth = st.depth := by
  by_cases enough : code.length ≤ st.fuel
  · obtain ⟨r', values', size', ran⟩ := h invoke r st values memory room enough
    exact of_ok ran ⟨values', size', rfl, rfl⟩
  -- with calls that give up, so many units of fuel are taken; with fewer, the fuel runs out
  let giveUp : Invoke := fun _ _ => throw .nestingLimit
  have metered : Metered (execInsts types giveUp r code) :=
    .execInsts types (fun _ _ => (Blind.throw _).metered) r code
  obtain ⟨r', _, _, ran⟩ := h giveUp r (st.withFuel code.length) values memory room (Nat.le_refl _)
  obtain ⟨units, takes⟩ := metered (st.withFuel code.length) (by rw [ran]; exact not_ranOut_ok)
  have used := takes.used
  rw [ran] at used
  simp only [ending, State.withFuel] at used
  obtain ⟨st', short⟩ := takes.short st.fuel (by omega)
  have follows := Follows.execInsts (g := invoke) types (fun _ _ => Follows.giveUp _) r code st
  rw [show (st.withFuel code.length).withFuel st.fuel = st from rfl] at short
  rcases follows with same | ⟨_, gaveUp⟩
  · exact of_limit (same.symm.trans short) (.inl rfl)
  · cases short.symm.trans gaveUp

theorem pure {a : α} {Q : α → State → Prop} (h : Q a st) : (Pure.pure a : Run α).Completes st Q := h

/-- The step does as another one does here. -/
theorem of_same {m m' : Run α} {Q : α → State → Prop} (same : m st = m' st)
    (h : m'.Completes st Q) : m.Completes st Q := by
  unfold Completes at h ⊢
  rwa [same]

theorem useFuel {Q : PUnit → State → Prop} (h : ∀ n, Q ⟨⟩ { st with fuel := n }) :
    useFuel.Completes st Q := by
  cases fuel : st.fuel with
  | zero =>
    have ranOut : Machine.useFuel st = .error .outOfFuel st := by
      obtain ⟨_, _, _, _⟩ := st
      cases fuel
      rfl
    exact of_limit ranOut (.inl rfl)
  | succ n => exact of_ok (useFuel_eq fuel) (h n)

/-- A call that is counted. -/
theorem nested {m : Run Value} {Q : Value → State → Prop}
    (h : m.Completes { st with depth := st.depth + 1 } fun v st' =>
      Q v { st' with depth := st'.depth - 1 }) : (nested m).Completes st Q := by
  unfold Completes at h
  split at h
  · rename_i v st' ran
    exact of_ok (by simp only [Machine.nested, ran]) h
  · rename_i t st' ran
    have ended : Machine.nested m st = .error t { st' with depth := st'.depth - 1 } := by
      simp only [Machine.nested, ran]
    exact of_limit ended h

/-- Instructions follow others. -/
theorem append {types : TypeTable} {invoke : Invoke} {r : Registers} {code code' : List Inst}
    {Q R : Registers → State → Prop} (first : (execInsts types invoke r code).Completes st Q)
    (rest : ∀ r' st', Q r' st' → (execInsts types invoke r' code').Completes st' R) :
    (execInsts types invoke r (code ++ code')).Completes st R := by
  have parts : execInsts types invoke r (code ++ code') =
      execInsts types invoke r code >>= fun r' => execInsts types invoke r' code' := by
    funext st
    rw [execInsts_append]
    simp only [Bind.bind, EStateM.bind]
    cases execInsts types invoke r code st <;> rfl
  rw [parts]
  exact first.bind rest

end Run.Completes

/-! ## Calls -/

/-- Calls may nest as deep as the machine allows. -/
structure State.Nests (st : State) (levels : Nat) : Prop where
  within : st.depth ≤ maxDepth
  enough : maxDepth < levels + st.depth

/-- From such a memory the call gives a value and leaves another memory, unless it hits a limit. -/
def Yields (im : Image) (target : Callee) (args : List Value) (mem : Memory) (v : Value)
    (mem' : Memory) : Prop :=
  ∀ (levels : Nat) (st : State), st.memory = mem → st.Nests levels →
    (invoke im levels target args).Completes st fun v' st' =>
      v' = v ∧ st'.memory = mem' ∧ st'.depth = st.depth

end Machine

/-! ## Code -/

namespace Point

variable {im : Image} {T : TypeTable → Prop} {p p' p'' : Point}

/-- Code leads from the one point to the other, unless it hits a limit. It may call functions. -/
structure Passes (im : Image) (p p' : Point) : Prop where
  place : p'.place = p.place
  code : ∃ code, p.draft.Appends p.place code p'.draft ∧
    ∀ (levels : Nat) (r : Registers) (st : State), r.read = p.values → st.memory = p.memory →
      p'.size ≤ r.size → st.Nests levels →
      (execInsts im.code.types (invoke im levels) r code).Completes st fun r' st' =>
        r'.read = p'.values ∧ r'.size = r.size ∧ st'.memory = p'.memory ∧ st'.depth = st.depth
  kept : ∀ v, v.raw < p.size → p'.values v = p.values v

theorem Goes.passes (h : p.Goes T p') (admitted : T im.code.types) : p.Passes im p' := by
  obtain ⟨code, appends, runs⟩ := h.code
  refine ⟨h.place, ⟨code, appends, fun levels r st values memory room _ => ?_⟩, h.kept⟩
  exact .of_runs (runs _ admitted) _ values memory room

namespace Passes

theorem size_le (h : p.Passes im p') : p.size ≤ p'.size := by
  obtain ⟨code, appends, _⟩ := h.code
  exact appends.size_le

theorem knows {v : ValueId} {x : Value} (h : p.Passes im p') (known : p.Knows v x) : p'.Knows v x :=
  ⟨Nat.lt_of_lt_of_le known.inside h.size_le, (h.kept v known.inside).trans known.value⟩

theorem trans (h : p.Passes im p') (h' : p'.Passes im p'') : p.Passes im p'' := by
  obtain ⟨code, appends, runs⟩ := h.code
  obtain ⟨code', appends', runs'⟩ := h'.code
  rw [h.place] at appends'
  refine ⟨h'.place.trans h.place, ⟨code ++ code', appends.trans appends', ?_⟩, fun v old => ?_⟩
  · intro levels r st values memory room nests
    refine (runs levels r st values memory (Nat.le_trans h'.size_le room) nests).append ?_
    rintro r₁ st₁ ⟨values₁, size₁, memory₁, depth₁⟩
    have nests₁ : st₁.Nests levels := ⟨depth₁ ▸ nests.within, depth₁ ▸ nests.enough⟩
    refine (runs' levels r₁ st₁ values₁ memory₁ (size₁ ▸ room) nests₁).mono ?_
    rintro r₂ st₂ ⟨values₂, size₂, memory₂, depth₂⟩
    exact ⟨values₂, size₂.trans size₁, memory₂, depth₂.trans depth₁⟩
  · exact (h'.kept v (Nat.lt_of_lt_of_le old h.size_le)).trans (h.kept v old)

end Passes

/-- A call leads to a point where what it gives is known. -/
theorem call_passes (p : Point) {func : FuncId} {args : List ValueId} {v : Value} {mem' : Memory}
    (name : String) (yields : Yields im (.function func) (args.map p.values) p.memory v mem') :
    (Draft.call func .ptr args name).run p.draft =
      (some ⟨p.size⟩, ((Draft.call func .ptr args name).run p.draft).2) ∧
    ∃ p' : Point, p'.draft = ((Draft.call func .ptr args name).run p.draft).2 ∧ p.Passes im p' ∧
      p'.memory = mem' := by
  have appends := Draft.callBy_appends p.isOpen name (.call · func args)
  have noted : ({ p.draft with values := p.draft.values.push ⟨.ptr, name⟩ } : Draft).Open p.place :=
    ⟨p.isOpen.here, p.isOpen.block⟩
  have sized : ((Draft.call func .ptr args name).run p.draft).2.values.size = p.size + 1 := by
    have written := congrArg (·.values.size) (noted.emit (.call (some ⟨p.size⟩) func args))
    exact written.trans (Array.size_push _)
  refine ⟨rfl, ⟨_, Function.update p.values ⟨p.size⟩ v, mem', p.place, p.isOpen.appends appends⟩,
    rfl,
    ⟨rfl, ⟨_, appends, ?_⟩, fun u old => ?_⟩, rfl⟩
  · intro levels r st values memory room nests
    have inside : p.size < r.size := by
      change ((Draft.call func .ptr args name).run p.draft).2.values.size ≤ r.size at room
      omega
    refine .bind (.useFuel (Q := fun _ st' => st'.memory = p.memory ∧ st'.depth = st.depth)
      fun _ => ⟨memory, rfl⟩) ?_
    rintro _ st₁ ⟨memory₁, depth₁⟩
    have nests₁ : st₁.Nests levels := ⟨depth₁ ▸ nests.within, depth₁ ▸ nests.enough⟩
    refine .bind (.of_same (callsAt_call im.code.types p ⟨p.size⟩ func args _ r st₁ values)
      ((yields levels st₁ memory₁ nests₁).bind fun u st₂ given => .pure ?_))
        fun r' st' here => .pure here
    obtain ⟨rfl, memory₂, depth₂⟩ := given
    refine ⟨?_, r.size_write _ _, memory₂, depth₂.trans depth₁⟩
    rw [r.read_write (v := ⟨p.size⟩) u inside, values]
  · exact Function.update_of_ne (by rintro rfl; exact absurd old (Nat.lt_irrefl _)) _ _

end Point

namespace Machine

/-! ## Bodies -/

/-- A body of one block leaves with what its code comes to. -/
theorem execBody_alone (types : TypeTable) (invoke : Invoke) (name : String) (insts : List Inst)
    (value : Option ValueId) (values : Array ValueNote) (args : List Value) (st : State) :
    execBody types invoke ⟨#[⟨name, insts.toArray, some (.ret value)⟩], values⟩ args st =
      (execInsts types invoke (args.take values.size ++
          List.replicate (values.size - args.length) Value.undef).toArray insts >>=
        fun r => pure (value.elim .undef r.read)) st := by
  unfold execBody walk
  dsimp only
  generalize (args.take values.size ++
    List.replicate (values.size - args.length) Value.undef).toArray = r
  cases insts with
  | nil => rfl
  | cons inst rest =>
    simp only [List.getElem?_toArray, List.getElem?_cons_zero, List.isEmpty_toArray,
      List.isEmpty_cons, Bool.false_eq_true, if_false, Bind.bind, EStateM.bind]
    cases execInsts types invoke r (inst :: rest) st <;> rfl

/-- The one block of a body that ends with `return`. -/
theorem finish_ret {func : FuncId} {args : List Value} {mem : Memory} {p : Point} {code : List Inst}
    (place : p.place = ⟨0⟩) (appends : (startPoint func args mem).draft.Appends ⟨0⟩ code p.draft)
    (value : Option ValueId) : ((Draft.ret value).run p.draft).2.finish =
      ⟨#[⟨"entry", code.toArray, some (.ret value)⟩], p.draft.values⟩ := by
  have isOpen := p.isOpen
  rw [place] at isOpen
  have closed := isOpen.close (.ret value)
  unfold Draft.ret
  rw [closed, blocks_of_appends appends, modify_singleton]
  rfl

/-- A call of a function whose body is one block yields what the code of the body leads to. -/
theorem yields_of_passes {im : Image} {func : FuncId} {fn : Function} {args : List Value}
    {mem : Memory} {p : Point} {value : Option ValueId} (known : im.code.function? func = some fn)
    (arity : args.length = fn.params.length)
    (hasBody : fn.body = some ((Draft.ret value).run p.draft).2.finish)
    (passes : (startPoint func args mem).Passes im p) :
    Yields im (.function func) args mem (value.elim .undef p.values) p.memory := by
  rintro levels st rfl nests
  obtain ⟨code, appends, runs⟩ := passes.code
  obtain ⟨levels, rfl⟩ : ∃ n, levels = n + 1 :=
    ⟨levels - 1, by have := nests.within; have := nests.enough; omega⟩
  by_cases deep : maxDepth ≤ st.depth
  · have full : Machine.invoke im (levels + 1) (.function func) args st =
        .error .stackOverflow st := by
      simp only [invoke, known, arity, ne_eq, not_true_eq_false, if_false, hasBody]
      change (if maxDepth ≤ st.depth then _ else _ : Run Value) st = _
      rw [if_pos deep]
      rfl
    exact .of_limit full (.inr rfl)
  · refine .of_same (invoke_function levels known arity hasBody (by omega)) (.nested ?_)
    have nests' : ({ st with depth := st.depth + 1 } : State).Nests levels := by
      have := nests.enough
      refine ⟨?_, ?_⟩ <;> dsimp only <;> omega
    have room : args.length ≤ p.draft.values.size := by
      have := appends.size_le
      have start := size_startPoint func args st.memory
      simp only [Point.size] at start
      omega
    rw [finish_ret passes.place appends value]
    have ran := runs levels _ { st with depth := st.depth + 1 } (read_start args room) rfl
      (by simp [Point.size]; omega) nests'
    refine .of_same (execBody_alone _ _ _ _ _ _ _ _) (ran.bind fun r' st' here => .pure ?_)
    obtain ⟨values', -, memory', depth'⟩ := here
    refine ⟨by rw [values'], memory', ?_⟩
    dsimp only at depth' ⊢
    omega

end Machine

end ShapeCompiler
