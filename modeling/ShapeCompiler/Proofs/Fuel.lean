import ShapeCompiler.Proofs.Confinement

/-!
# Fuel decides only whether a call ends

* `Run.Blind`: a step that neither uses fuel nor depends on it;
* `Run.Metered`: a step that ends as it does wherever there is fuel enough for it, and runs out of
  fuel wherever there is less;
* `Request.Plain`: a host that does not look at the fuel and calls nothing;
* `fuel_decides_ending`: with such hosts every call is metered.
-/

namespace ShapeCompiler

open Code

namespace Machine

/-- The state with another amount of fuel. -/
def State.withFuel (s : State) (n : Nat) : State := { s with fuel := n }

/-- The same end with another amount of fuel left. -/
def endWithFuel {α : Type} (n : Nat) : EStateM.Result Trap State α → EStateM.Result Trap State α
  | .ok a s => .ok a (s.withFuel n)
  | .error t s => .error t (s.withFuel n)

/-- The step ran out of fuel. -/
def RanOut {α : Type} (result : EStateM.Result Trap State α) : Prop :=
    ∃ s, result = .error .outOfFuel s

theorem ranOut_error_iff {α : Type} {t : Trap} {s : State} :
    RanOut (.error t s : EStateM.Result Trap State α) ↔ t = .outOfFuel := by
  constructor
  · rintro ⟨s', same⟩
    cases same
    rfl
  · rintro rfl
    exact ⟨s, rfl⟩

theorem not_ranOut_ok {α : Type} {a : α} {s : State} :
    ¬ RanOut (.ok a s : EStateM.Result Trap State α) := by
  rintro ⟨s', same⟩
  cases same

theorem outcome_of_ranOut {α : Type} {result : EStateM.Result Trap State α} (h : RanOut result) :
    outcome result = .error .outOfFuel := by
  obtain ⟨s, rfl⟩ := h
  rfl

theorem outcome_endWithFuel {α : Type} (n : Nat) (result : EStateM.Result Trap State α) :
    outcome (endWithFuel n result) = outcome result := by
  cases result <;> rfl

theorem ending_endWithFuel {α : Type} (n : Nat) (result : EStateM.Result Trap State α) :
    ending (endWithFuel n result) = (ending result).withFuel n := by
  cases result <;> rfl

/-- With `k` units, and no less, the step ends as it does from the state, and what is left beyond is
left then. -/
structure Run.Takes {α : Type} (m : Run α) (s : State) (k : Nat) : Prop where
  used : (ending (m s)).fuel + k = s.fuel
  enough : ∀ n, k ≤ n → m (s.withFuel n) = endWithFuel (n - k) (m s)
  short : ∀ n, n < k → RanOut (m (s.withFuel n))

/-- Unless the step runs out of fuel from the state, it takes some number of units. -/
def Run.MeteredAt {α : Type} (m : Run α) (s : State) : Prop := ¬ RanOut (m s) → ∃ k, m.Takes s k

def Run.Metered {α : Type} (m : Run α) : Prop := ∀ s, m.MeteredAt s

/-- The step neither uses fuel nor depends on it. -/
structure Run.Blind {α : Type} (m : Run α) : Prop where
  unused : ∀ s, (ending (m s)).fuel = s.fuel
  same : ∀ s n, m (s.withFuel n) = endWithFuel n (m s)

/-! ## Steps in sequence -/

namespace Run.Blind

variable {α β : Type}

theorem pure (a : α) : Blind (Pure.pure a) := ⟨fun _ => rfl, fun _ _ => rfl⟩

theorem throw (t : Trap) : Blind (throw t : Run α) := ⟨fun _ => rfl, fun _ _ => rfl⟩

theorem bind {m : Run α} {f : α → Run β} (first : Blind m) (rest : ∀ a, Blind (f a)) :
    Blind (m >>= f) := by
  constructor
  · intro s
    have unused := first.unused s
    cases ran : m s with
    | ok a s₁ =>
      rw [ran] at unused
      rw [bind_of_ok ran, (rest a).unused s₁]
      exact unused
    | error t s₁ =>
      rw [ran] at unused
      rw [bind_of_error ran]
      exact unused
  · intro s n
    have same := first.same s n
    cases ran : m s with
    | ok a s₁ =>
      rw [ran] at same
      rw [bind_of_ok ran, bind_of_ok same]
      exact (rest a).same s₁ n
    | error t s₁ =>
      rw [ran] at same
      rw [bind_of_error ran, bind_of_error same]
      rfl

theorem ofExcept (x : Except Trap α) : Blind (Run.ofExcept x) := by
  cases x with
  | ok a => exact pure a
  | error t => exact throw t

/-- A step that looks at the state, but not at its fuel. -/
theorem get_bind {f : State → Run α} (blind : ∀ s n, f (s.withFuel n) = f s)
    (rest : ∀ s, Blind (f s)) :
    Blind (get >>= f) := by
  constructor
  · intro s
    exact (rest s).unused s
  · intro s n
    change f (s.withFuel n) (s.withFuel n) = endWithFuel n (f s s)
    rw [blind]
    exact (rest s).same s n

theorem attempt {m : Run α} (h : Blind m) : Blind (attempt m) := by
  constructor
  · intro s
    have unused := h.unused s
    unfold Machine.attempt
    cases ran : m s <;> rw [ran] at unused <;> exact unused
  · intro s n
    have same := h.same s n
    unfold Machine.attempt
    rw [same]
    cases m s <;> rfl

theorem allocate (v : Value) : Blind (allocate v) := ⟨fun _ => rfl, fun _ _ => rfl⟩

theorem loadValue (ptr : Value) : Blind (loadValue ptr) :=
  get_bind (fun _ _ => rfl) fun _ => ofExcept _

theorem storeValue (ptr v : Value) : Blind (storeValue ptr v) := by
  constructor
  · intro s
    rw [storeValue_eq]
    split <;> rfl
  · intro s n
    have sameMemory : (s.withFuel n).memory = s.memory := rfl
    rw [storeValue_eq, storeValue_eq, sameMemory]
    cases s.memory.store ptr v <;> rfl

theorem log (entry : Entry) :
    Blind (modify fun s => { s with log := s.log.push entry } : Run PUnit) :=
  ⟨fun _ => rfl, fun _ _ => rfl⟩

theorem metered {m : Run α} (h : Blind m) : Metered m :=
  fun s _ => ⟨0, h.unused s, fun n _ => h.same s n, fun n never => absurd never (Nat.not_lt_zero n)⟩

end Run.Blind

namespace Run.Metered

variable {α β : Type}

/-- What the parts take is added up. -/
theorem bindAt {m : Run α} {f : α → Run β} {s : State} (first : m.MeteredAt s)
    (rest : ∀ a s', m s = .ok a s' → (f a).MeteredAt s') : (m >>= f).MeteredAt s := by
  intro ends
  cases ran : m s with
  | error t s₁ =>
    rw [bind_of_error ran, ranOut_error_iff] at ends
    obtain ⟨k, takes⟩ := first (by rwa [ran, ranOut_error_iff])
    refine ⟨k, ?_, fun n le => ?_, fun n lt => ?_⟩
    · rw [bind_of_error ran]
      simpa [ran, ending] using takes.used
    · have same := takes.enough n le
      rw [ran] at same
      rw [bind_of_error same, bind_of_error ran]
      rfl
    · obtain ⟨s', out⟩ := takes.short n lt
      exact ⟨s', bind_of_error out⟩
  | ok a s₁ =>
    rw [bind_of_ok ran] at ends
    obtain ⟨k₁, takes₁⟩ := first (by rw [ran]; exact not_ranOut_ok)
    obtain ⟨k₂, takes₂⟩ := rest a s₁ ran ends
    have used₁ : s₁.fuel + k₁ = s.fuel := by simpa [ran, ending] using takes₁.used
    have used₂ := takes₂.used
    -- with enough for the first part, the second starts with the rest
    have goes (n : Nat) (le : k₁ ≤ n) : (m >>= f) (s.withFuel n) = f a (s₁.withFuel (n - k₁)) := by
      have same := takes₁.enough n le
      rw [ran] at same
      exact bind_of_ok same
    refine ⟨k₁ + k₂, ?_, fun n le => ?_, fun n lt => ?_⟩
    · rw [bind_of_ok ran]
      omega
    · rw [goes n (by omega), takes₂.enough (n - k₁) (by omega), bind_of_ok ran, Nat.sub_sub]
    · by_cases le : k₁ ≤ n
      · rw [goes n le]
        exact takes₂.short (n - k₁) (by omega)
      · obtain ⟨s', out⟩ := takes₁.short n (by omega)
        exact ⟨s', bind_of_error out⟩

theorem bind {m : Run α} {f : α → Run β} (first : Metered m) (rest : ∀ a, Metered (f a)) :
    Metered (m >>= f) :=
  fun s => bindAt (first s) fun a s' _ => rest a s'

theorem get_bind {f : State → Run α} (blind : ∀ s n, f (s.withFuel n) = f s)
    (rest : ∀ s, Metered (f s)) :
    Metered (get >>= f) := by
  intro s ends
  obtain ⟨k, takes⟩ := rest s s ends
  refine ⟨k, takes.used, fun n le => ?_, fun n lt => ?_⟩
  · change f (s.withFuel n) (s.withFuel n) = _
    rw [blind]
    exact takes.enough n le
  · change RanOut (f (s.withFuel n) (s.withFuel n))
    rw [blind]
    exact takes.short n lt

/-- One unit. -/
theorem useFuel : Metered useFuel := by
  intro s ends
  cases left : s.fuel with
  | zero =>
    refine absurd ⟨s, ?_⟩ ends
    rw [useFuel_apply, left]
  | succ fuel =>
    have ran : Machine.useFuel s = .ok () (s.withFuel fuel) := by
      rw [useFuel_apply, left]
      rfl
    refine ⟨1, ?_, fun n le => ?_, fun n lt => ?_⟩
    · simp [ran, ending, left, State.withFuel]
    · obtain ⟨n, rfl⟩ : ∃ m, n = m + 1 := ⟨n - 1, by omega⟩
      rw [useFuel_apply, ran]
      rfl
    · obtain rfl : n = 0 := by omega
      exact ⟨s.withFuel 0, useFuel_apply _⟩

theorem nested_apply (m : Run Value) (s : State) :
    Machine.nested m s = match m { s with depth := s.depth + 1 } with
      | .ok v s' => .ok v { s' with depth := s'.depth - 1 }
      | .error t s' => .error t { s' with depth := s'.depth - 1 } := rfl

theorem nested {m : Run Value} (h : Metered m) : Metered (nested m) := by
  intro s ends
  obtain ⟨k, takes⟩ := h { s with depth := s.depth + 1 } fun out => ends <| by
    obtain ⟨s', isOut⟩ := out
    exact ⟨{ s' with depth := s'.depth - 1 }, by rw [nested_apply, isOut]⟩
  refine ⟨k, ?_, fun n le => ?_, fun n lt => ?_⟩
  · have used := takes.used
    rw [nested_apply]
    cases ran : m { s with depth := s.depth + 1 } <;> simpa [ran, ending] using used
  · have same := takes.enough n le
    change m { s.withFuel n with depth := (s.withFuel n).depth + 1 } = _ at same
    rw [nested_apply, same, nested_apply]
    cases m { s with depth := s.depth + 1 } <;> rfl
  · obtain ⟨s', isOut⟩ := takes.short n lt
    change m { s.withFuel n with depth := (s.withFuel n).depth + 1 } = _ at isOut
    exact ⟨{ s' with depth := s'.depth - 1 }, by rw [nested_apply, isOut]⟩

end Run.Metered

/-! ## Bodies -/

/-- A run through a body from a block on, with all the fuel there is. -/
def walkFrom (types : TypeTable) (invoke : Invoke) (body : Code.Body) (id : BlockId) (idle : Nat)
    (r : Registers) : Run Value :=
  fun s => walk types invoke body id idle r s.fuel s

/-- What follows a block. -/
def goOn (after : Except Trap Next) (go : BlockId → Run Value) : Run Value :=
  match after with
  | .error t => throw t
  | .ok (.leave v) => pure v
  | .ok (.goto next) => go next

/-- After an empty block, where another one may follow. -/
def unlessEndless (idle : Nat) (go : Nat → Run Value) : Run Value :=
  match idle with
  | 0 => throw .endless
  | idle + 1 => go idle

section Walks

variable {types : TypeTable} {invoke : Invoke} {body : Code.Body} {id : BlockId} {idle : Nat}
  {r : Registers} {k : Block}

theorem walkFrom_missing (here : body.blocks[id.raw]? = none) :
    walkFrom types invoke body id idle r = throw (.missingBlock id) := by
  funext s
  rw [walkFrom, walk.eq_def, here]
  rfl

/-- An empty block is left at once. -/
theorem walkFrom_empty (here : body.blocks[id.raw]? = some k) (empty : k.insts.isEmpty) :
    walkFrom types invoke body id idle r =
      goOn (exitBlock r k) fun next => unlessEndless idle fun idle =>
        walkFrom types invoke body next idle r := by
  funext s
  rw [walkFrom, walk.eq_def]
  simp only [here, empty, if_true]
  cases exitBlock r k with
  | error t => rfl
  | ok after =>
    cases after with
    | leave v => rfl
    | goto next => cases idle <;> rfl

/-- Instructions use fuel. -/
theorem execInsts_uses (keeps : ∀ f args, (invoke f args).Keeping) {insts : List Inst}
    (filled : insts ≠ []) {s s' : State} {r' : Registers}
    (ran : execInsts types invoke r insts s = .ok r' s') : s'.fuel < s.fuel := by
  cases insts with
  | nil => exact absurd rfl filled
  | cons inst rest =>
    simp only [execInsts] at ran
    cases left : s.fuel with
    | zero =>
      have out : useFuel s = .error .outOfFuel s := by rw [useFuel_apply, left]
      rw [bind_of_error out] at ran
      cases ran
    | succ fuel =>
      have charged : useFuel s = .ok () { s with fuel } := by rw [useFuel_apply, left]
      rw [bind_of_ok charged] at ran
      have kept := ((Run.Keeping.execInst types keeps r inst).bind fun r' =>
        Run.Keeping.execInsts types keeps r' rest).of_ok ran
      exact Nat.lt_succ_of_le kept.fuel

/-- A block with instructions runs them, and goes on with the fuel that is left. -/
theorem walkFrom_filled (keeps : ∀ f args, (invoke f args).Keeping)
    (here : body.blocks[id.raw]? = some k) (filled : ¬ k.insts.isEmpty) :
    walkFrom types invoke body id idle r =
      execInsts types invoke r k.insts.toList >>= fun r' =>
        goOn (exitBlock r' k) fun next => walkFrom types invoke body next body.blocks.size r' := by
  funext s
  rw [walkFrom, walk.eq_def]
  simp only [here, filled]
  cases ran : execInsts types invoke r k.insts.toList s with
  | error t s₁ => 
    rw [bind_of_error ran]
    rfl
  | ok r₁ s₁ =>
    have used := execInsts_uses keeps (by simpa using filled) ran
    rw [bind_of_ok ran]
    simp only [Bool.false_eq_true, if_false, used, if_true]
    cases exitBlock r₁ k with
    | error t => rfl
    | ok after => cases after <;> rfl

end Walks

namespace Run.Metered

section Calls

variable {invoke : Invoke}

theorem execInst (types : TypeTable) (calls : ∀ f args, Metered (invoke f args)) (r : Registers)
    (inst : Inst) : Metered (execInst types invoke r inst) := by
  cases inst with
  | const dst value => exact (Blind.pure _).metered
  | alloc dst ty => exact ((Blind.allocate _).bind fun _ => .pure _).metered
  | load dst ty ptr => exact ((Blind.loadValue _).bind fun _ => .pure _).metered
  | store value ptr => exact ((Blind.storeValue _ _).bind fun _ => .pure _).metered
  | fieldAddr dst ty ptr index => exact ((Blind.ofExcept _).bind fun _ => .pure _).metered
  | elemAddr dst elem ptr index =>
    exact ((Blind.ofExcept _).bind fun _ => (Blind.ofExcept _).bind fun _ =>
      (Blind.ofExcept _).bind fun _ => .pure _).metered
  | call dst func args => exact (calls _ _).bind fun _ => (Blind.pure _).metered
  | callIndirect dst sig callee args =>
    exact (Blind.ofExcept _).metered.bind fun _ => (calls _ _).bind fun _ => (Blind.pure _).metered
  | bitcast dst value ty => exact (Blind.pure _).metered
  | binary dst op lhs rhs => exact ((Blind.ofExcept _).bind fun _ => .pure _).metered
  | compare dst pred lhs rhs => exact ((Blind.ofExcept _).bind fun _ => .pure _).metered
  | not dst value => exact ((Blind.ofExcept _).bind fun _ => .pure _).metered
  | fneg dst value => exact ((Blind.ofExcept _).bind fun _ => .pure _).metered

theorem execInsts (types : TypeTable) (calls : ∀ f args, Metered (invoke f args)) (r : Registers)
    (insts : List Inst) : Metered (execInsts types invoke r insts) := by
  induction insts generalizing r with
  | nil => exact (Blind.pure r).metered
  | cons inst rest ih =>
    exact useFuel.bind fun _ => (execInst types calls r inst).bind fun r' => ih r'

/-- What follows a block is metered where the block it leads to is. -/
theorem goOn {after : Except Trap Next} {go : BlockId → Run Value} {s : State}
    (h : ∀ next, after = .ok (.goto next) → (go next).MeteredAt s) :
    (goOn after go).MeteredAt s := by
  cases after with
  | error t => exact (Blind.throw t).metered s
  | ok after =>
    cases after with
    | leave v => exact (Blind.pure v).metered s
    | goto next => exact h next rfl

/-- By induction on the fuel, and on the empty blocks that may still follow. -/
theorem walkFrom (types : TypeTable) (keeps : ∀ f args, Keeping (invoke f args))
    (calls : ∀ f args, Metered (invoke f args)) (body : Code.Body) (id : BlockId) (idle : Nat)
    (r : Registers) : Metered (walkFrom types invoke body id idle r) := by
  intro s
  induction isFuel : s.fuel using Nat.strongRecOn generalizing id idle r s with
  | ind fuel shorter =>
    -- an empty block leads to one with the same fuel, any other to one with less
    have block (id : BlockId) (idle : Nat) (onward : ∀ next, (unlessEndless idle fun idle =>
        Machine.walkFrom types invoke body next idle r).MeteredAt s) :
        (Machine.walkFrom types invoke body id idle r).MeteredAt s := by
      cases here : body.blocks[id.raw]? with
      | none =>
        rw [walkFrom_missing here]
        exact (Blind.throw _).metered s
      | some k =>
        by_cases empty : k.insts.isEmpty
        · rw [walkFrom_empty here empty]
          exact goOn fun next _ => onward next
        · rw [walkFrom_filled keeps here empty]
          refine bindAt (execInsts types calls r _ s) fun r₁ s₁ ran => goOn fun next _ => ?_
          have used := execInsts_uses keeps (by simpa using empty) ran
          exact shorter s₁.fuel (isFuel ▸ used) next _ r₁ s₁ rfl
    induction idle generalizing id with
    | zero => exact block id 0 fun _ => (Blind.throw _).metered s
    | succ idle ih => exact block id (idle + 1) ih

end Calls

end Run.Metered

/-! ## Hosts and calls -/

/-- The host does not look at the fuel and calls nothing. -/
def Request.Plain : Request → Prop
  | .done _ => True
  | .look next => (∀ s n, next (s.withFuel n) = next s) ∧ ∀ s, (next s).Plain
  | .log _ next => next.Plain
  | .alloc _ next => ∀ v, (next v).Plain
  | .write _ _ next => ∀ ended, (next ended).Plain
  | .run _ _ _ | .callFunction _ _ _ | .callValue _ _ _ => False

/-- All ready-made hosts but the one that calls closures are plain. -/
theorem Behaviour.plain (host : String) {b : Behaviour} (noCall : b ≠ .callClosure)
    (args : List Value) :
    (b.act host args).Plain := by
  have reading {α : Type} (read : Value → Except Trap α) (entry : α → Entry) :
      (Request.logRead read entry args).Plain := by
    refine ⟨fun _ _ => rfl, fun s => ?_⟩
    dsimp only
    split <;> trivial
  cases b with
  | logNumber | logTruth | logText => exact reading _ _
  | logValues depth => exact ⟨fun _ _ => rfl, fun _ => trivial⟩
  | box value => exact fun _ => trivial
  | constant value => trivial
  | argument index =>
    change ((args[index]?).elim (Request.trap (.host "no such argument")) Request.ret).Plain
    cases args[index]? <;> trivial
  | callClosure => exact absurd rfl noCall
  | fail message => trivial

theorem Request.Plain.blind (im : Image) (invoke : Invoke) {request : Request} (h : request.Plain) :
    (request.perform im invoke).Blind := by
  induction request with
  | done result => exact .ofExcept result
  | look next ih =>
    refine .get_bind (fun s n => ?_) fun s => ih s (h.2 s)
    rw [h.1 s n]
  | log entry next ih => exact (Run.Blind.log entry).bind fun _ => ih h
  | alloc value next ih => exact (Run.Blind.allocate value).bind fun v => ih v (h v)
  | write ptr value next ih =>
    exact (Run.Blind.storeValue ptr value).attempt.bind fun ended => ih ended (h ended)
  | run | callFunction | callValue => exact h.elim

/-- By induction on how deep calls nest. -/
theorem Run.Metered.invoke {im : Image} (hosts : ∀ host ∈ im.hosts, ∀ args, (host.act args).Plain)
    (levels : Nat) (callee : Callee) (args : List Value) :
    Metered (invoke im levels callee args) := by
  induction levels generalizing callee args with
  | zero => exact (Blind.throw _).metered
  | succ levels ih =>
    cases callee with
    | host id =>
      simp only [Machine.invoke]
      split
      · exact (Blind.throw _).metered
      · rename_i host known
        exact ((hosts host (Array.mem_of_getElem? known) args).blind im _).metered
    | function id =>
      simp only [Machine.invoke]
      split
      · exact (Blind.throw _).metered
      · split
        · exact (Blind.throw _).metered
        · split
          · split
            · exact (Blind.throw _).metered
            · exact ih _ _
          · rename_i body isBody
            have runs : Metered (execBody im.code.types (Machine.invoke im levels) body args) :=
              walkFrom im.code.types (Keeping.invoke im levels) ih body _ _ _
            refine get_bind (fun _ _ => rfl) fun s => ?_
            split
            · exact (Blind.throw _).metered.bind fun _ => runs.nested
            · exact runs.nested

/-- A call that ends otherwise than for want of fuel uses some units. With as many or more it ends
in the same way, in the same state, with the rest left; with fewer it ends for want of fuel. -/
theorem fuel_decides_ending (m : Machine) (args : List Value) (c : Call)
    (hosts : ∀ host ∈ m.image.hosts, ∀ args, (host.act args).Plain)
    (ends : (m.call args c).1 ≠ .error .outOfFuel) :
    ∃ k, (m.call args c).2.state.fuel + k = m.state.fuel ∧
      (∀ n, k ≤ n → (m.setFuel n).call args c =
        ((m.call args c).1, (m.call args c).2.setFuel (n - k))) ∧
      ∀ n, n < k → ((m.setFuel n).call args c).1 = .error .outOfFuel := by
  have metered := (Run.Blind.ofExcept (c.target m.image)).metered.bind fun f =>
    Run.Metered.invoke hosts maxNesting f args
  simp only [call_eq, step_eq, setFuel] at ends ⊢
  obtain ⟨k, takes⟩ := metered m.state (mt outcome_of_ranOut ends)
  refine ⟨k, takes.used, fun n le => ?_, fun n lt => ?_⟩
  · have same := takes.enough n le
    simp only [State.withFuel] at same
    rw [same, outcome_endWithFuel, ending_endWithFuel]
    rfl
  · exact outcome_of_ranOut (takes.short n lt)

/-- A loop that is gone through once and calls a host. -/
def turningOnce : Machine :=
  let m := ofModule {
    name := "turning"
    functions := #[
      ⟨"main", [], .void, some {
        blocks := #[⟨"entry", #[.alloc ⟨0⟩ .i1], some (.br ⟨1⟩)⟩,
          ⟨"test", #[.load ⟨1⟩ .i1 ⟨0⟩], some (.condBr ⟨1⟩ ⟨3⟩ ⟨2⟩)⟩,
          ⟨"body", #[.const ⟨2⟩ (.bool true), .store ⟨2⟩ ⟨0⟩, .call none ⟨1⟩ [⟨0⟩]],
            some (.br ⟨1⟩)⟩,
          ⟨"done", #[], some (.ret none)⟩]
        values := #[⟨.ptr, "done"⟩, ⟨.i1, "test"⟩, ⟨.i1, "true"⟩] }⟩,
      ⟨"show", [.ptr], .void, none⟩] }
  ((m.register ⟨"show", Behaviour.logTruth.act "show"⟩).2).setFuel 10

/-- It takes six units. -/
theorem fuel_decides_ending_turningOnce :
    (turningOnce.call [] (.named "main")).1 = .ok .undef ∧
    (∀ n, 6 ≤ n → ((turningOnce.setFuel n).call [] (.named "main")).1 = .ok .undef) ∧
    ∀ n, n < 6 → ((turningOnce.setFuel n).call [] (.named "main")).1 = .error .outOfFuel := by
  have ends : (turningOnce.call [] (.named "main")).1 = .ok .undef := by cbv
  have left : (turningOnce.call [] (.named "main")).2.state.fuel = 4 := by cbv
  have hosts : ∀ host ∈ turningOnce.image.hosts, ∀ args, (host.act args).Plain := by
    intro host inside args
    change host ∈ #[(⟨"show", Behaviour.logTruth.act "show"⟩ : Host)] at inside
    obtain rfl := Array.mem_singleton.mp inside
    exact Behaviour.plain "show" (b := .logTruth) (by simp) args
  obtain ⟨k, used, enough, short⟩ := fuel_decides_ending turningOnce [] (.named "main") hosts
    (by simp [ends])
  obtain rfl : k = 6 := by
    have start : turningOnce.state.fuel = 10 := rfl
    omega
  exact ⟨ends, fun n le => by rw [enough n le, ends], short⟩

end Machine

end ShapeCompiler
