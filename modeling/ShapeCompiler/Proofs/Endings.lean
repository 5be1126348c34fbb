import ShapeCompiler.Proofs.Fuel

/-!
# Where a call ends

Fuel is used by instructions alone, so it does not bound control that goes round blocks without any.

* `idleAfter`: where control is after a number of empty blocks; `Circular`: it comes back;
* `exists_circular`: more empty blocks in a row than the body has blocks come back to one of them;
* `circles_of_endless`, `Circles.stuck`: a call is endless exactly where control comes to a circle;
* `Moves`: the course of a task with the block transitions counted; `Affords.step`, `Moves.affords`:
  without circles the fuel used bounds their number;
* `ends_unless_going_round`: so it is for every way to call into a machine.
-/

namespace ShapeCompiler

open Code

namespace Machine

/-! ## Empty blocks -/

/-- The block after an empty one. -/
def idleNext (body : Code.Body) (r : Registers) (id : BlockId) : Option BlockId :=
  match body.blocks[id.raw]? with
  | none => none
  | some k =>
    if k.insts.isEmpty then
      match exitBlock r k with
      | .ok (.goto next) => some next
      | _ => none
    else none

/-- The block where control is after a number of empty ones. -/
def idleAfter (body : Code.Body) (r : Registers) (id : BlockId) : Nat → Option BlockId
  | 0 => some id
  | n + 1 => (idleAfter body r id n).bind (idleNext body r)

/-- Empty blocks lead from the block back to it. -/
def Circular (body : Code.Body) (r : Registers) (id : BlockId) : Prop :=
  ∃ n, idleAfter body r id (n + 1) = some id

section Idle

variable {body : Code.Body} {r : Registers} {id next a b : BlockId} {n i j : Nat}

theorem idleNext_eq_some_iff : idleNext body r id = some next ↔
    ∃ k, body.blocks[id.raw]? = some k ∧ k.insts.isEmpty ∧ exitBlock r k = .ok (.goto next) := by
  unfold idleNext
  constructor
  · intro leads
    split at leads
    · cases leads
    · rename_i k here
      split at leads
      · rename_i empty
        split at leads
        · rename_i exits
          cases leads
          exact ⟨k, here, empty, exits⟩
        · cases leads
      · cases leads
  · rintro ⟨k, here, empty, leads⟩
    simp [here, empty, leads]

theorem lt_size_of_idleNext (leads : idleNext body r id = some next) :
    id.raw < body.blocks.size := by
  obtain ⟨k, here, _⟩ := idleNext_eq_some_iff.mp leads
  exact (Array.getElem?_eq_some_iff.mp here).1

theorem idleAfter_add (m n : Nat) :
    idleAfter body r id (m + n) = (idleAfter body r id m).bind fun a => idleAfter body r a n := by
  induction n with
  | zero => simp [idleAfter]
  | succ n ih =>
    rw [← Nat.add_assoc, idleAfter, ih]
    cases idleAfter body r id m <;> rfl

theorem idleAfter_succ (n : Nat) : idleAfter body r id (n + 1) =
    (idleNext body r id).bind fun a => idleAfter body r a n := by
  rw [Nat.add_comm, idleAfter_add]
  rfl

/-- Control passes each block on its way. -/
theorem idleAfter_below (after : idleAfter body r id n = some b) (lt : i < n) :
    ∃ a next, idleAfter body r id i = some a ∧ idleNext body r a = some next := by
  obtain ⟨d, rfl⟩ : ∃ d, n = i + (d + 1) := ⟨n - i - 1, by omega⟩
  rw [idleAfter_add] at after
  obtain ⟨a, isA, further⟩ := Option.bind_eq_some_iff.mp after
  rw [idleAfter_succ] at further
  obtain ⟨next, leads, _⟩ := Option.bind_eq_some_iff.mp further
  exact ⟨a, next, isA, leads⟩

/-- More empty blocks in a row than there are blocks come back to one of them. -/
theorem exists_circular (after : idleAfter body r id n = some b) (long : body.blocks.size < n) :
    ∃ i a, idleAfter body r id i = some a ∧ Circular body r a := by
  -- the block where control is after `i` empty ones
  let spot (i : Nat) : Nat := ((idleAfter body r id i).map BlockId.raw).getD 0
  have inside : ∀ i ∈ Finset.range n, spot i ∈ Finset.range body.blocks.size := by
    intro i below
    obtain ⟨a, next, isA, leads⟩ := idleAfter_below after (Finset.mem_range.mp below)
    simpa [spot, isA] using lt_size_of_idleNext leads
  obtain ⟨i, belowI, j, belowJ, apart, meet⟩ :=
    Finset.exists_ne_map_eq_of_card_lt_of_maps_to (by simpa using long) inside
  have back {i j : Nat} (belowI : i < n) (belowJ : j < n) (lt : i < j) (meet : spot i = spot j) :
      ∃ i a, idleAfter body r id i = some a ∧ Circular body r a := by
    obtain ⟨a, _, isA, _⟩ := idleAfter_below after belowI
    obtain ⟨c, _, isC, _⟩ := idleAfter_below after belowJ
    have same : a.raw = c.raw := by simpa [spot, isA, isC] using meet
    obtain rfl : a = c := by
      cases a
      cases c
      exact congrArg _ same
    obtain ⟨d, rfl⟩ : ∃ d, j = i + (d + 1) := ⟨j - i - 1, by omega⟩
    refine ⟨i, a, isA, d, ?_⟩
    rwa [idleAfter_add, isA] at isC
  rw [Finset.mem_range] at belowI belowJ
  obtain lt | lt := Nat.lt_or_gt_of_ne apart
  · exact back belowI belowJ lt meet
  · exact back belowJ belowI lt meet.symm

/-- From a block that control comes back to there is a way of any length. -/
theorem Circular.unending (circular : Circular body r id) (n : Nat) :
    ∃ a, idleAfter body r id n = some a := by
  obtain ⟨d, back⟩ := circular
  have round (m : Nat) : idleAfter body r id ((d + 1) * m) = some id := by
    induction m with
    | zero => rfl
    | succ m ih => rw [Nat.mul_succ, idleAfter_add, ih, Option.bind_some, back]
  have lt : n < (d + 1) * (n + 1) := by nlinarith
  obtain ⟨a, _, isA, _⟩ := idleAfter_below (round (n + 1)) lt
  exact ⟨a, isA⟩

/-- Control comes back to some block, or it is soon at one that does not pass it on. -/
theorem circular_or_stops (body : Code.Body) (r : Registers) (id : BlockId) :
    (∃ n a, idleAfter body r id n = some a ∧ Circular body r a) ∨
      ∃ n ≤ body.blocks.size, ∃ a, idleAfter body r id n = some a ∧ idleNext body r a = none := by
  have goesOn (n : Nat) : (∃ a, idleAfter body r id n = some a) ∨
      ∃ j < n, ∃ a, idleAfter body r id j = some a ∧ idleNext body r a = none := by
    induction n with
    | zero => exact .inl ⟨id, rfl⟩
    | succ n ih =>
      obtain ⟨a, isA⟩ | ⟨j, lt, stops⟩ := ih
      · cases leads : idleNext body r a with
        | none => exact .inr ⟨n, Nat.lt_succ_self n, a, isA, leads⟩
        | some next => exact .inl ⟨next, by rw [idleAfter, isA]; exact leads⟩
      · exact .inr ⟨j, Nat.lt_succ_of_lt lt, stops⟩
  obtain ⟨a, isA⟩ | ⟨j, lt, stops⟩ := goesOn (body.blocks.size + 1)
  · exact .inl (exists_circular isA (Nat.lt_succ_self _))
  · exact .inr ⟨j, Nat.le_of_lt_succ lt, stops⟩

end Idle

section Walks

variable {types : TypeTable} {invoke : Invoke} {body : Code.Body}
  {id next a : BlockId} {r : Registers}

theorem walkFrom_idle (leads : idleNext body r id = some next) (idle : Nat) :
    walkFrom types invoke body id idle r =
      unlessEndless idle fun idle => walkFrom types invoke body next idle r := by
  obtain ⟨k, here, empty, exits⟩ := idleNext_eq_some_iff.mp leads
  rw [walkFrom_empty here empty, exits]
  rfl

/-- As long as empty blocks may follow, nothing happens on the way through them. -/
theorem walkFrom_idleAfter {n idle : Nat} (after : idleAfter body r id n = some a) :
    walkFrom types invoke body id (idle + n) r = walkFrom types invoke body a idle r := by
  induction n generalizing id with
  | zero =>
    cases after
    rfl
  | succ n ih =>
    rw [idleAfter_succ] at after
    obtain ⟨next, leads, after⟩ := Option.bind_eq_some_iff.mp after
    rw [← Nat.add_assoc, walkFrom_idle leads]
    exact ih after

/-- Where control goes on through empty blocks for ever, the walk is stopped. -/
theorem walkFrom_unending (unending : ∀ n, ∃ a, idleAfter body r id n = some a) (idle : Nat) :
    walkFrom types invoke body id idle r = throw .endless := by
  obtain ⟨a, isA⟩ := unending idle
  obtain ⟨next, isNext⟩ := unending (idle + 1)
  rw [idleAfter, isA] at isNext
  rw [← Nat.zero_add idle, walkFrom_idleAfter isA, walkFrom_idle isNext]
  rfl

end Walks

/-! ## Steps that are never stopped as endless -/

/-- What is not stopped as endless. -/
def Settled {α : Type} (x : Except Trap α) : Prop := x ≠ .error .endless

namespace Settled

variable {α β : Type}

theorem ok (a : α) : Settled (.ok a) := by rintro ⟨⟩

theorem error {t : Trap} (other : t ≠ .endless) : Settled (.error t : Except Trap α) :=
  fun isEndless => other (Except.error.inj isEndless)

theorem bind {x : Except Trap α} {f : α → Except Trap β} (first : Settled x)
    (rest : ∀ a, Settled (f a)) : Settled (x >>= f) := by
  cases x with
  | ok a => exact rest a
  | error t => exact error fun same => first (congrArg _ same)

theorem map {x : Except Trap α} (f : α → β) (h : Settled x) : Settled (x.map f) := by
  cases x with
  | ok a => exact ok (f a)
  | error t => exact error fun same => h (congrArg _ same)

theorem asPointer (v : Value) : Settled v.asPointer := by cases v <;> rintro ⟨⟩

theorem asBool (v : Value) : Settled v.asBool := by cases v <;> rintro ⟨⟩

theorem asInt (v : Value) : Settled v.asInt := by cases v <;> rintro ⟨⟩

theorem asFloat (v : Value) : Settled v.asFloat := by cases v <;> rintro ⟨⟩

theorem asText (v : Value) : Settled v.asText := by cases v <;> rintro ⟨⟩

theorem callee (v : Value) : Settled v.callee := by cases v <;> rintro ⟨⟩

theorem elementIndex (i : Int64) : Settled (elementIndex i) := by
  unfold Machine.elementIndex
  dsimp only
  split <;> rintro ⟨⟩

theorem binaryValue (op : BinaryOp) (lhs rhs : Value) : Settled (binaryValue op lhs rhs) := by
  have float (f : Float → Float → Value) :
      Settled (do return f (← lhs.asFloat) (← rhs.asFloat)) :=
    (asFloat lhs).bind fun _ => (asFloat rhs).bind fun _ => ok _
  have int (f : Int64 → Int64 → Value) : Settled (do return f (← lhs.asInt) (← rhs.asInt)) :=
    (asInt lhs).bind fun _ => (asInt rhs).bind fun _ => ok _
  cases op with
  | fadd | fsub | fmul | fdiv => exact float _
  | add | sub | mul => exact int _
  | and | or =>
    simp only [Machine.binaryValue]
    split
    · exact ok _
    · exact int _
  | concat => exact (asText lhs).bind fun _ => (asText rhs).bind fun _ => ok _

theorem compareValues (pred : Predicate) (lhs rhs : Value) :
    Settled (compareValues pred lhs rhs) := by
  unfold Machine.compareValues
  repeat' split
  all_goals rintro ⟨⟩

theorem follow (p : Pointer) (path : List Nat) (v : Value) : Settled (v.follow p path) := by
  induction path generalizing v with
  | nil => exact ok v
  | cons i path ih =>
    cases v with
    | agg items =>
      simp only [Value.follow]
      split
      · exact ih _
      · rintro ⟨⟩
    | _ => rintro ⟨⟩

theorem replace (p : Pointer) (new : Value) (path : List Nat) (v : Value) :
    Settled (Value.replace p new path v) := by
  induction path generalizing v with
  | nil => exact ok new
  | cons i path ih =>
    cases v with
    | agg items =>
      simp only [Value.replace]
      split
      · exact (ih _).map _
      · rintro ⟨⟩
    | _ => rintro ⟨⟩

theorem root (m : Memory) (region : Region) : Settled (m.root region) := by
  cases region <;> (simp only [Memory.root]; split <;> rintro ⟨⟩)

theorem load (m : Memory) (ptr : Value) : Settled (m.load ptr) := by
  refine (asPointer ptr).bind fun p => Settled.bind ?_ fun v => ?_
  · exact (root m _).bind fun whole => follow p _ whole
  · cases v <;> rintro ⟨⟩

theorem written (m : Memory) (p : Pointer) (v : Value) : Settled (m.written p v) := by
  refine Settled.bind ?_ fun _ => (root m _).bind fun whole => replace p v _ whole
  cases isRegion : p.region with
  | heap index => exact ok _
  | global id =>
    simp only [Memory.guardWrite]
    repeat' split
    all_goals rintro ⟨⟩

theorem store (m : Memory) (ptr v : Value) : Settled (m.store ptr v) :=
  (asPointer ptr).bind fun p => (written m p v).bind fun _ => ok _

theorem exitBlock (r : Registers) (k : Block) : Settled (exitBlock r k) := by
  unfold Machine.exitBlock
  split
  · rintro ⟨⟩
  · rintro ⟨⟩
  · rintro ⟨⟩
  · exact (asBool _).bind fun _ => ok _
  · exact (asInt _).bind fun _ => ok _
  · rintro ⟨⟩

theorem functionNamed (im : Image) (name : String) : Settled (im.functionNamed name) := by
  unfold Image.functionNamed
  split <;> rintro ⟨⟩

end Settled

/-- The step is stopped as endless. -/
def Run.Endless {α : Type} (m : Run α) (s : State) : Prop := outcome (m s) = .error .endless

/-- However the step ends, it is not stopped as endless. -/
def Run.Settling {α : Type} (m : Run α) : Prop := ∀ s, ¬ m.Endless s

section Endless

variable {α β : Type} {m : Run α} {f : α → Run β} {s : State}

theorem Run.Endless.bind (h : m.Endless s) : (m >>= f).Endless s := by
  unfold Run.Endless at h ⊢
  cases ran : m s with
  | ok a s₁ => simp [ran, outcome] at h
  | error t s₁ =>
    obtain rfl : t = .endless := by simpa [ran, outcome] using h
    rw [bind_of_error ran]
    rfl

theorem Run.Endless.of_rest {a : α} {s₁ : State} (ran : m s = .ok a s₁) (h : (f a).Endless s₁) :
    (m >>= f).Endless s := by
  rwa [Run.Endless, bind_of_ok ran]

/-- Of two steps in sequence, one is endless if both together are. -/
theorem Run.Endless.of_bind (h : (m >>= f).Endless s) :
    m.Endless s ∨ ∃ a s₁, m s = .ok a s₁ ∧ (f a).Endless s₁ := by
  cases ran : m s with
  | ok a s₁ =>
    rw [Run.Endless, bind_of_ok ran] at h
    exact .inr ⟨a, s₁, rfl, h⟩
  | error t s₁ =>
    rw [Run.Endless, bind_of_error ran] at h
    rw [Run.Endless, ran]
    exact .inl (congrArg _ (Except.error.inj h))

theorem Run.Endless.trap_eq {t : Trap} (h : (throw t : Run α).Endless s) : t = .endless :=
  Except.error.inj h

namespace Run.Settling

theorem pure (a : α) : Settling (Pure.pure a) := by rintro s ⟨⟩

theorem throw {t : Trap} (other : t ≠ .endless) : Settling (throw t : Run α) :=
  fun _ isEndless => other isEndless.trap_eq

theorem bind (first : Settling m) (rest : ∀ a, Settling (f a)) : Settling (m >>= f) := by
  intro s isEndless
  obtain isEndless | ⟨a, s₁, _, isEndless⟩ := isEndless.of_bind
  · exact first s isEndless
  · exact rest a s₁ isEndless

theorem ofExcept {x : Except Trap α} (h : Settled x) : Settling (Run.ofExcept x) := by
  cases x with
  | ok a => exact pure a
  | error t => exact throw fun same => h (congrArg _ same)

theorem useFuel : Settling useFuel := by
  intro s
  rw [Run.Endless, useFuel_apply]
  split <;> rintro ⟨⟩

theorem loadValue (ptr : Value) : Settling (loadValue ptr) :=
  fun s => ofExcept (.load s.memory ptr) s

theorem storeValue (ptr v : Value) : Settling (storeValue ptr v) := by
  intro s isEndless
  have settled := Settled.store s.memory ptr v
  rw [Run.Endless, storeValue_eq] at isEndless
  cases stored : s.memory.store ptr v with
  | ok memory => simp [stored, outcome] at isEndless
  | error t =>
    rw [stored] at isEndless settled
    exact settled (congrArg _ (Except.error.inj isEndless))

end Run.Settling

end Endless

/-! ## From an endless call to a circle -/

section Endless

variable {types : TypeTable} {invoke : Invoke} {body : Code.Body} {id : BlockId}
  {r : Registers} {s : State}

/-- Of the instructions only a call can be endless. -/
theorem Run.Settling.execInst {inst : Inst} (noCall : callOf r inst = none) :
    Settling (execInst types invoke r inst) := by
  have write (dst : ValueId) (v : Value) : Settling (Pure.pure (r.write dst v)) := pure _
  cases inst with
  | const dst value => exact write dst _
  | alloc dst ty => exact Settling.bind (m := allocate _) (by rintro s ⟨⟩) fun v => write dst v
  | load dst ty ptr => exact (loadValue _).bind fun v => write dst v
  | store value ptr => exact (storeValue _ _).bind fun _ => pure r
  | fieldAddr dst ty ptr index => exact (ofExcept (.asPointer _)).bind fun _ => write dst _
  | elemAddr dst elem ptr index =>
    exact (ofExcept (.asInt _)).bind fun _ => (ofExcept (.elementIndex _)).bind fun _ =>
      (ofExcept (.asPointer _)).bind fun _ => write dst _
  | call dst func args => cases noCall
  | callIndirect dst sig callee args =>
    have settled := Settled.callee (r.read callee)
    cases target : (r.read callee).callee with
    | ok target => simp [callOf, target] at noCall
    | error t =>
      intro s isEndless
      simp only [Machine.execInst, target] at isEndless
      exact settled (target.trans (congrArg _ (Except.error.inj isEndless)))
  | bitcast dst value ty => exact write dst _
  | binary dst op lhs rhs => exact (ofExcept (.binaryValue _ _ _)).bind fun _ => write dst _
  | compare dst pred lhs rhs => exact (ofExcept (.compareValues _ _ _)).bind fun _ => write dst _
  | not dst value => exact (ofExcept (.asBool _)).bind fun _ => write dst _
  | fneg dst value => exact (ofExcept (.asFloat _)).bind fun _ => write dst _

/-- A call instruction writes what its call gives, if that is wanted. -/
theorem execInst_call (types : TypeTable) (invoke : Invoke) {inst : Inst} {callee : Callee}
    {values : List Value} (calls : callOf r inst = some (callee, values)) : ∃ dst : Option ValueId,
      execInst types invoke r inst =
        invoke callee values >>= fun result => pure (dst.elim r (r.write · result)) := by
  cases inst with
  | call dst func args =>
    cases calls
    exact ⟨dst, rfl⟩
  | callIndirect dst sig address args =>
    refine ⟨dst, ?_⟩
    cases known : (r.read address).callee with
    | error t => simp [callOf, known] at calls
    | ok target =>
      obtain ⟨rfl, rfl⟩ : target = callee ∧ args.map r.read = values := by
        simpa [callOf, known] using calls
      simp only [execInst, known]
      rfl
  | _ => cases calls

theorem execInst_endless {inst : Inst} (h : (execInst types invoke r inst).Endless s) :
    ∃ callee args, callOf r inst = some (callee, args) ∧ (invoke callee args).Endless s := by
  cases calls : callOf r inst with
  | none => exact absurd h (Run.Settling.execInst calls s)
  | some call =>
    obtain ⟨dst, isCall⟩ := execInst_call types invoke calls
    rw [isCall] at h
    obtain isEndless | ⟨v, s₁, _, isEndless⟩ := h.of_bind
    · exact ⟨_, _, rfl, isEndless⟩
    · exact absurd isEndless (Run.Settling.pure _ s₁)

theorem Run.Endless.of_goOn {after : Except Trap Next} {go : BlockId → Run Value}
    (settled : Settled after)
    (h : (goOn after go).Endless s) : ∃ next, after = .ok (.goto next) ∧ (go next).Endless s := by
  cases after with
  | error t => exact absurd h (Run.Settling.throw (fun same => settled (congrArg _ same)) s)
  | ok after =>
    cases after with
    | leave v => exact absurd h (Run.Settling.pure v s)
    | goto next => exact ⟨next, rfl, h⟩

/-- A walk is endless where empty blocks go round, where the instructions of a block are endless, or
where the walk on from a later block is. -/
theorem walkFrom_endless (keeps : ∀ f args, (invoke f args).Keeping)
    (h : (walkFrom types invoke body id body.blocks.size r).Endless s) :
    ∃ n a, idleAfter body r id n = some a ∧ (Circular body r a ∨ ∃ k, body.blocks[a.raw]? = some k ∧
      ((execInsts types invoke r k.insts.toList).Endless s ∨ ∃ r' s' next,
        execInsts types invoke r k.insts.toList s = .ok r' s' ∧ exitBlock r' k = .ok (.goto next) ∧
        s'.fuel < s.fuel ∧ (walkFrom types invoke body next body.blocks.size r').Endless s')) := by
  obtain ⟨n, a, after, circular⟩ | ⟨n, le, a, after, stops⟩ := circular_or_stops body r id
  · exact ⟨n, a, after, .inl circular⟩
  obtain ⟨idle, isSize⟩ : ∃ idle, body.blocks.size = idle + n := ⟨body.blocks.size - n, by omega⟩
  rw [isSize, walkFrom_idleAfter after] at h
  refine ⟨n, a, after, .inr ?_⟩
  cases here : body.blocks[a.raw]? with
  | none =>
    rw [walkFrom_missing here] at h
    cases Run.Endless.trap_eq h
  | some k =>
    refine ⟨k, rfl, ?_⟩
    by_cases empty : k.insts.isEmpty
    · -- control would go on from an empty block
      rw [walkFrom_empty here empty] at h
      obtain ⟨next, leads, _⟩ := h.of_goOn (.exitBlock r k)
      rw [idleNext_eq_some_iff.mpr ⟨k, here, empty, leads⟩] at stops
      cases stops
    · rw [walkFrom_filled keeps here empty] at h
      obtain isEndless | ⟨r', s', ran, isEndless⟩ := h.of_bind
      · exact .inl isEndless
      · obtain ⟨next, leads, isEndless⟩ := isEndless.of_goOn (.exitBlock r' k)
        exact .inr ⟨r', s', next, ran, leads,
          execInsts_uses keeps (by simpa using empty) ran, isEndless⟩

end Endless

section Courses

variable {im : Image} {t t' t'' : Task} {s s' s'' : State}

theorem Reaches.trans (h : Reaches im t s t' s') (h' : Reaches im t' s' t'' s'') :
    Reaches im t s t'' s'' := by
  induction h' with
  | start => exact h
  | next _ begins ih => exact ih.next begins

theorem Begins.reaches (h : Begins im t s t' s') : Reaches im t s t' s' := .next .start h

/-- No host is reached in the course of the task. -/
def Hostless (im : Image) (t : Task) (s : State) : Prop :=
  ∀ levels request s', ¬ Reaches im t s (.request levels request) s'

theorem Hostless.of_reaches (h : Hostless im t s) (reaches : Reaches im t s t' s') :
    Hostless im t' s' :=
  fun levels request s'' further => h levels request s'' (reaches.trans further)

/-- In the course of the task control comes to a block that empty blocks lead back to. -/
def Circles (im : Image) (t : Task) (s : State) : Prop :=
  ∃ levels body id r s', Reaches im t s (.body levels body id r) s' ∧ Circular body r id

theorem Circles.of_reaches (reaches : Reaches im t s t' s') (h : Circles im t' s') :
    Circles im t s := by
  obtain ⟨levels, body, id, r, s'', further, circular⟩ := h
  exact ⟨levels, body, id, r, s'', reaches.trans further, circular⟩

theorem begins_idle {levels : Nat} {body : Code.Body} {r : Registers} {id next : BlockId}
    (leads : idleNext body r id = some next) :
    Begins im (.body levels body id r) s (.body levels body next r) s := by
  obtain ⟨k, here, empty, exits⟩ := idleNext_eq_some_iff.mp leads
  have none_ : k.insts.toList = [] := by simpa using empty
  exact .jump here (by rw [none_]; rfl) exits

theorem reaches_idleAfter {levels n : Nat} {body : Code.Body} {r : Registers} {id a : BlockId}
    (after : idleAfter body r id n = some a) :
    Reaches im (.body levels body id r) s (.body levels body a r) s := by
  induction n generalizing a with
  | zero =>
    cases after
    exact .start
  | succ n ih =>
    obtain ⟨b, isB, leads⟩ := Option.bind_eq_some_iff.mp after
    exact (ih isB).next (begins_idle leads)

/-- Endless instructions come to an endless call. -/
theorem reaches_endless_call {levels : Nat} {r : Registers} {insts : List Inst}
    (h : (execInsts im.code.types (invoke im levels) r insts).Endless s) :
    ∃ callee args s', Reaches im (.insts levels r insts) s (.call levels callee args) s' ∧
      (invoke im levels callee args).Endless s' := by
  induction insts generalizing r s with
  | nil => exact absurd h (Run.Settling.pure r s)
  | cons inst rest ih =>
    obtain isEndless | ⟨_, s₁, charged, isEndless⟩ := Run.Endless.of_bind h
    · exact absurd isEndless (Run.Settling.useFuel s)
    obtain isEndless | ⟨r', s', ran, isEndless⟩ := isEndless.of_bind
    · obtain ⟨callee, args, calls, isEndless⟩ := execInst_endless isEndless
      exact ⟨callee, args, s₁, (Begins.inst charged calls).reaches, isEndless⟩
    · obtain ⟨callee, args, s'', reaches, isEndless⟩ := ih isEndless
      exact ⟨callee, args, s'', (Begins.next charged ran).reaches.trans reaches, isEndless⟩

/-- By induction on the fuel: after a block with instructions there is less. -/
theorem circles_of_endless_walk {levels : Nat} {body : Code.Body} {id : BlockId} {r : Registers}
    (calls : ∀ callee args s, Hostless im (.call levels callee args) s →
      (invoke im levels callee args).Endless s → Circles im (.call levels callee args) s)
    (hostless : Hostless im (.body levels body id r) s)
    (h : (walkFrom im.code.types (invoke im levels) body id body.blocks.size r).Endless s) :
    Circles im (.body levels body id r) s := by
  induction isFuel : s.fuel using Nat.strongRecOn generalizing id r s with
  | ind fuel shorter =>
    obtain ⟨n, a, after, circular | ⟨k, here,
        isEndless | ⟨r', s', next, ran, leads, used, isEndless⟩⟩⟩ :=
      walkFrom_endless (Run.Keeping.invoke im levels) h
    · exact ⟨levels, body, a, r, s, reaches_idleAfter after, circular⟩
    · obtain ⟨callee, args, s', reaches, isEndless⟩ := reaches_endless_call isEndless
      have way := ((reaches_idleAfter after).next (.block here)).trans reaches
      exact (calls callee args s' (hostless.of_reaches way) isEndless).of_reaches way
    · have way := (reaches_idleAfter after).next (.jump here ran leads)
      exact (shorter s'.fuel (isFuel ▸ used) (hostless.of_reaches way) isEndless rfl).of_reaches way

theorem Run.endless_nested_iff {m : Run Value} :
    (nested m).Endless s ↔ m.Endless { s with depth := s.depth + 1 } := by
  rw [Run.Endless, Run.Endless, Run.Metered.nested_apply]
  cases m { s with depth := s.depth + 1 } <;> rfl

section Functions

variable {levels : Nat} {id : FuncId} {f : Function} {args : List Value}

theorem invoke_external_endless_iff {host : HostId} (known : im.code.function? id = some f)
    (fits : args.length = f.params.length) (noBody : f.body = none)
    (named : im.hostNamed f.name = some host) :
    (invoke im (levels + 1) (.function id) args).Endless s ↔
    (invoke im levels (.host host) args).Endless s := by
  simp only [invoke, known, fits, ne_eq, not_true_eq_false, if_false, noBody, named]

/-- A call of a function with a body is endless where the walk through the body is. -/
theorem invoke_body_endless_iff {body : Code.Body} (known : im.code.function? id = some f)
    (fits : args.length = f.params.length) (hasBody : f.body = some body) :
    (invoke im (levels + 1) (.function id) args).Endless s ↔ s.depth < maxDepth ∧
      (walkFrom im.code.types (invoke im levels) body ⟨0⟩ body.blocks.size
      (startValues body args)).Endless
        { s with depth := s.depth + 1 } := by
  simp only [invoke, known, fits, ne_eq, not_true_eq_false, if_false, hasBody]
  by_cases full : maxDepth ≤ s.depth
  · constructor
    · intro h
      rw [Run.Endless, bind_of_ok (m := get) (s := s) rfl, if_pos full] at h
      cases Run.Endless.trap_eq (α := Value) (s := s) h
    · exact fun h => absurd full (Nat.not_le_of_lt h.1)
  · rw [Run.Endless, bind_of_ok (m := get) (s := s) rfl, if_neg full]
    exact Run.endless_nested_iff.trans (iff_and_self.mpr fun _ => Nat.lt_of_not_le full)

end Functions

/-- By induction on how deep calls nest. -/
theorem circles_of_endless (levels : Nat) (callee : Callee) (args : List Value) (s : State)
    (hostless : Hostless im (.call levels callee args) s)
    (h : (invoke im levels callee args).Endless s) :
    Circles im (.call levels callee args) s := by
  induction levels generalizing callee args s with
  | zero => cases Run.Endless.trap_eq h
  | succ levels ih =>
    cases callee with
    | host id =>
      simp only [invoke] at h
      split at h
      · cases Run.Endless.trap_eq h
      · rename_i host known
        exact absurd (Begins.host known).reaches (hostless _ _ _)
    | function id =>
      cases known : im.code.function? id with
      | none =>
        simp only [invoke, known] at h
        cases Run.Endless.trap_eq h
      | some f =>
        by_cases fits : args.length = f.params.length
        · cases isBody : f.body with
          | none =>
            cases named : im.hostNamed f.name with
            | none =>
              simp only [invoke, known, fits, ne_eq, not_true_eq_false, if_false,
                isBody, named] at h
              cases Run.Endless.trap_eq h
            | some host =>
              have way : Reaches im (.call (levels + 1) (.function id) args) s
                  (.call levels (.host host) args) s :=
                    (Begins.external known fits isBody named).reaches
              rw [invoke_external_endless_iff known fits isBody named] at h
              exact (ih _ _ _ (hostless.of_reaches way) h).of_reaches way
          | some body =>
            obtain ⟨room, isEndless⟩ := (invoke_body_endless_iff known fits isBody).mp h
            have way : Reaches im (.call (levels + 1) (.function id) args) s
                (.body levels body ⟨0⟩ (startValues body args)) { s with depth := s.depth + 1 } :=
              (Begins.enter known fits isBody room).reaches
            exact (circles_of_endless_walk ih (hostless.of_reaches way) isEndless).of_reaches way
        · simp only [invoke, known, ne_eq, fits, not_false_eq_true, if_true] at h
          cases Run.Endless.trap_eq h

/-! ## From a circle to an endless call -/

/-- The task is stopped as endless, a body with any number of empty blocks still to follow. -/
def Stuck (im : Image) : Task → State → Prop
  | .call levels callee args, s => (invoke im levels callee args).Endless s
  | .body levels body id r, s =>
    ∀ idle, (walkFrom im.code.types (invoke im levels) body id idle r).Endless s
  | .insts levels r insts, s => (execInsts im.code.types (invoke im levels) r insts).Endless s
  | .request levels request, s => (request.perform im (invoke im levels)).Endless s

/-- What is stuck is so for all it is carried out for, unless a host asks for it. -/
theorem Stuck.of_begins (begins : Begins im t s t' s')
    (own : ∀ levels request, t ≠ .request levels request)
    (h : Stuck im t' s') : Stuck im t s := by
  cases begins with
  | host known =>
    simp only [Stuck, invoke, known] at h ⊢
    exact h
  | external known fits noBody named =>
    exact (invoke_external_endless_iff known fits noBody named).mpr h
  | enter known fits hasBody room =>
    exact (invoke_body_endless_iff known fits hasBody).mpr ⟨room, h _⟩
  | @block levels body id r k s here =>
    intro idle
    by_cases empty : k.insts.isEmpty
    · have none_ : k.insts.toList = [] := by simpa using empty
      rw [none_] at h
      exact absurd h (Run.Settling.pure r s)
    · rw [walkFrom_filled (Run.Keeping.invoke im levels) here empty]
      exact Run.Endless.bind h
  | @jump levels body id next r r' k s s' here ran leads =>
    intro idle
    by_cases empty : k.insts.isEmpty
    · have none_ : k.insts.toList = [] := by simpa using empty
      rw [none_] at ran
      cases ran
      rw [walkFrom_empty here empty, leads]
      cases idle with
      | zero => exact rfl
      | succ idle => exact h idle
    · rw [walkFrom_filled (Run.Keeping.invoke im levels) here empty]
      refine Run.Endless.of_rest ran ?_
      rw [leads]
      exact h _
  | inst charged calls =>
    obtain ⟨dst, isCall⟩ := execInst_call im.code.types (invoke im _) calls
    refine Run.Endless.of_rest charged (Run.Endless.bind ?_)
    rw [isCall]
    exact Run.Endless.bind h
  | next charged ran => exact Run.Endless.of_rest charged (Run.Endless.of_rest ran h)
  | look | log | alloc | write | callBack | answer => exact absurd rfl (own _ _)

theorem Stuck.of_reaches (reaches : Reaches im t s t' s') (hostless : Hostless im t s)
    (h : Stuck im t' s') : Stuck im t s := by
  induction reaches with
  | start => exact h
  | next before begins ih =>
    refine ih (h.of_begins begins fun levels request same => ?_)
    subst same
    exact hostless levels request _ before

theorem Circles.stuck (hostless : Hostless im t s) (h : Circles im t s) : Stuck im t s := by
  obtain ⟨levels, body, id, r, s', reaches, circular⟩ := h
  refine Stuck.of_reaches reaches hostless fun idle => ?_
  rw [walkFrom_unending circular.unending]
  rfl

/-! ## Block transitions -/

/-- Control goes on from one block of a body to another. -/
def Task.transitions : Task → Task → Nat
  | .body .., .body .. => 1
  | _, _ => 0

/-- Any number of tasks, each in the course of the one before, with so many block transitions. -/
inductive Moves (im : Image) (t : Task) (s : State) : Nat → Task → State → Prop where
  | start : Moves im t s 0 t s
  | next {n : Nat} {t' t'' : Task} {s' s'' : State} (before : Moves im t s n t' s')
    (begins : Begins im t' s' t'' s'') : Moves im t s (n + t'.transitions t'') t'' s''

theorem Moves.reaches {n : Nat} (h : Moves im t s n t' s') : Reaches im t s t' s' := by
  induction h with
  | start => exact .start
  | next _ begins ih => exact ih.next begins

theorem Reaches.moves (h : Reaches im t s t' s') : ∃ n, Moves im t s n t' s' := by
  induction h with
  | start => exact ⟨0, .start⟩
  | next _ begins ih =>
    obtain ⟨n, moves⟩ := ih
    exact ⟨_, moves.next begins⟩

/-- Each empty block is one more transition. -/
theorem Moves.idleAfter {levels m n : Nat} {body : Code.Body} {r : Registers} {id a : BlockId}
    (h : Moves im t s m (.body levels body id r) s') (after : idleAfter body r id n = some a) :
    Moves im t s (m + n) (.body levels body a r) s' := by
  induction n generalizing a with
  | zero =>
    cases after
    exact h
  | succ n ih =>
    obtain ⟨b, isB, leads⟩ := Option.bind_eq_some_iff.mp after
    exact (ih isB).next (begins_idle leads)

/-- From a circle on there are as many transitions as one likes. -/
theorem Circles.moves (h : Circles im t s) (n : Nat) : ∃ t' s', Moves im t s n t' s' := by
  obtain ⟨levels, body, id, r, s', reaches, circular⟩ := h
  have some_ : ∃ k t' s', n ≤ k ∧ Moves im t s k t' s' := by
    obtain ⟨m, moves⟩ := reaches.moves
    obtain ⟨a, after⟩ := circular.unending n
    exact ⟨m + n, _, _, Nat.le_add_left n m, moves.idleAfter after⟩
  obtain ⟨k, t', s', le, moves⟩ := some_
  -- a shorter way is one of its beginnings
  induction moves with
  | start => exact ⟨t, s, by rw [Nat.le_zero.mp le]; exact .start⟩
  | @next k t' t'' s' s'' before begins ih =>
    by_cases less : n ≤ k
    · exact ih less
    · have one : t'.transitions t'' ≤ 1 := by
        unfold Task.transitions
        split <;> decide
      have same : n = k + t'.transitions t'' := by omega
      exact ⟨t'', s'', same ▸ before.next begins⟩

/-- The blocks of all functions. -/
def Image.blockCount (im : Image) : Nat :=
  (im.code.functions.toList.map fun f => f.body.elim 0 (·.blocks.size)).sum

theorem blocks_le_blockCount {id : FuncId} {f : Function} {body : Code.Body}
    (known : im.code.function? id = some f) (hasBody : f.body = some body) :
    body.blocks.size ≤ im.blockCount := by
  have inside : f ∈ im.code.functions.toList :=
    Array.mem_toList_iff.mpr (Array.mem_of_getElem? known)
  refine List.le_sum_of_mem (List.mem_map.mpr ⟨f, inside, ?_⟩)
  rw [hasBody]
  rfl

/-- The transitions that the fuel used so far stands for. -/
def allowance (im : Image) (fuel : Nat) (s : State) : Nat := (fuel - s.fuel) * (im.blockCount + 1)

/-- With `fuel` units at the start, so many transitions are within what the fuel used since stands
for, with those through the empty blocks just passed. -/
def Affords (im : Image) (fuel n : Nat) : Task → State → Prop
  | .call .., s => n ≤ allowance im fuel s
  | .body levels body id r, s =>
    body.blocks.size ≤ im.blockCount ∧ ∃ a j, idleAfter body r a j = some id ∧
      ¬ Circles im (.body levels body a r) s ∧ n ≤ allowance im fuel s + j
  | .insts .., s => n ≤ allowance im fuel s + im.blockCount
  | .request .., _ => False

theorem allowance_of_used (im : Image) {fuel : Nat} (le : s.fuel ≤ fuel) (used : s'.fuel < s.fuel) :
    allowance im fuel s + im.blockCount + 1 ≤ allowance im fuel s' := by
  have one_more : fuel - s.fuel + 1 ≤ fuel - s'.fuel := by omega
  calc allowance im fuel s + im.blockCount + 1 = (fuel - s.fuel + 1) * (im.blockCount + 1) := by
        unfold allowance
        ring
    _ ≤ allowance im fuel s' := Nat.mul_le_mul_right _ one_more

/-- Control that does not go round passes each empty block once. -/
theorem idle_le_size {levels j : Nat} {body : Code.Body} {r : Registers} {a id : BlockId}
    (straight : ¬ Circles im (.body levels body a r) s) (after : idleAfter body r a j = some id) :
    j ≤ body.blocks.size := by
  by_contra long
  obtain ⟨i, c, isC, circular⟩ := exists_circular after (Nat.lt_of_not_le long)
  exact straight ⟨levels, body, c, r, s, reaches_idleAfter isC, circular⟩

theorem useFuel_uses (charged : useFuel s = .ok () s') : s'.fuel < s.fuel := by
  rw [useFuel_apply] at charged
  split at charged
  · cases charged
  · rename_i n left
    cases charged
    change n < s.fuel
    omega

/-- The step lemma: an empty block is one of those just passed, and any other uses fuel. -/
theorem Affords.step {fuel n : Nat} (h : Affords im fuel n t s) (le : s.fuel ≤ fuel)
    (straight : ¬ Circles im t s) (begins : Begins im t s t' s')
    (own : ∀ levels request, t' ≠ .request levels request) :
    Affords im fuel (n + t.transitions t') t' s' := by
  have straight' : ¬ Circles im t' s' := mt (Circles.of_reaches begins.reaches) straight
  cases begins with
  | host => exact absurd rfl (own _ _)
  | look | log | alloc | write | callBack | answer => exact h.elim
  | external => exact h
  | enter known fits hasBody room =>
    exact ⟨blocks_le_blockCount known hasBody, ⟨0⟩, 0, rfl, straight', h⟩
  | block here =>
    obtain ⟨size, a, j, after, clear, few⟩ := h
    have short := idle_le_size clear after
    change n ≤ _
    omega
  | @jump levels body id next r r' k s s' here ran leads =>
    obtain ⟨size, a, j, after, clear, few⟩ := h
    have short := idle_le_size clear after
    by_cases empty : k.insts.isEmpty
    · have none_ : k.insts.toList = [] := by simpa using empty
      rw [none_] at ran
      cases ran
      refine ⟨size, a, j + 1, ?_, clear, Nat.add_le_add_right few 1⟩
      rw [idleAfter, after]
      exact idleNext_eq_some_iff.mpr ⟨k, here, empty, leads⟩
    · have used := execInsts_uses (Run.Keeping.invoke im levels) (by simpa using empty) ran
      have more := allowance_of_used im le used
      refine ⟨size, next, 0, rfl, straight', ?_⟩
      change n + 1 ≤ _
      omega
  | inst charged calls =>
    have more := allowance_of_used im le (useFuel_uses charged)
    change n ≤ _ at h
    change n ≤ _
    omega
  | next charged ran =>
    have kept := (Run.Keeping.execInst _ (Run.Keeping.invoke im _) _ _).of_ok ran
    have more := allowance_of_used im le (Nat.lt_of_le_of_lt kept.fuel (useFuel_uses charged))
    change n ≤ _ at h
    change n ≤ _
    omega

/-- Where control does not go round, the fuel bounds the transitions: all are afforded, and the fuel
used is never more than there was. -/
theorem Moves.affords {levels n : Nat} {callee : Callee} {args : List Value}
    (hostless : Hostless im (.call levels callee args) s)
    (straight : ¬ Circles im (.call levels callee args) s)
    (h : Moves im (.call levels callee args) s n t' s') : Affords im s.fuel n t' s' := by
  induction h with
  | start => exact Nat.zero_le _
  | next before begins ih =>
    have way := before.reaches
    refine ih.step way.bounds.fuel (mt (Circles.of_reaches way) straight) begins
      fun levels request same => ?_
    subst same
    exact hostless levels request _ (way.next begins)

theorem Affords.lt {fuel n : Nat} (h : Affords im fuel n t s) :
    n < (fuel + 1) * (im.blockCount + 1) := by
  have most : allowance im fuel s ≤ fuel * (im.blockCount + 1) :=
    Nat.mul_le_mul_right _ (Nat.sub_le _ _)
  rw [Nat.succ_mul]
  cases t with
  | call levels callee args =>
    change n ≤ _ at h
    omega
  | body levels body id r =>
    obtain ⟨size, a, j, after, clear, few⟩ := h
    have short := idle_le_size clear after
    omega
  | insts levels r insts =>
    change n ≤ _ at h
    omega
  | request levels request => exact h.elim

/-- Where there are no hosts, none is reached. -/
theorem hostless_of_no_hosts {levels : Nat} {callee : Callee} {args : List Value}
    (none_ : im.hosts = #[]) :
    Hostless im (.call levels callee args) s := by
  intro levels' request s' reaches
  generalize isRequest : Task.request levels' request = t' at reaches
  induction reaches generalizing levels' request with
  | start => cases isRequest
  | next before begins ih =>
    subst isRequest
    cases begins with
    | host known => simp [none_] at known
    | look | log | alloc | write | answer => exact ih _ _ rfl

end Courses

/-! ## Calls into a machine -/

/-- In the course of the call, after so many block transitions, the task is started in the state. -/
def PassesAfter (m : Machine) (args : List Value) (c : Call) (n : Nat) (t : Task) (s : State) :
    Prop :=
  ∃ callee, c.target m.image = .ok callee ∧ Moves m.image
    (.call maxNesting callee args) m.state n t s

/-- In the course of the call control comes to a block that empty blocks lead back to. -/
def GoesRound (m : Machine) (args : List Value) (c : Call) : Prop :=
  ∃ levels body id r s, m.Passes args c maxNesting (.body levels body id r) s ∧ Circular body r id

theorem Call.settled_target (c : Call) (im : Image) : Settled (c.target im) := by
  cases c with
  | named name => exact .functionNamed im name
  | function id => exact .ok _
  | value v => exact .callee v

theorem call_endless_iff (m : Machine) (args : List Value) (c : Call) :
    (m.call args c).1 = .error .endless ↔
      ∃ callee, c.target m.image = .ok callee ∧
      (invoke m.image maxNesting callee args).Endless m.state := by
  rw [call_eq, step_eq]
  cases known : c.target m.image with
  | error t =>
    have settled := c.settled_target m.image
    rw [known] at settled
    constructor
    · intro isEndless
      exact absurd (congrArg _ (Except.error.inj isEndless)) settled
    · rintro ⟨callee, same, _⟩
      cases same
  | ok callee =>
    constructor
    · exact fun isEndless => ⟨callee, rfl, isEndless⟩
    · rintro ⟨callee, same, isEndless⟩
      cases same
      exact isEndless

theorem goesRound_iff (m : Machine) (args : List Value) (c : Call) : m.GoesRound args c ↔
    ∃ callee, c.target m.image = .ok callee ∧
    Circles m.image (.call maxNesting callee args) m.state := by
  constructor
  · rintro ⟨levels, body, id, r, s, ⟨callee, known, reaches⟩, circular⟩
    exact ⟨callee, known, levels, body, id, r, s, reaches, circular⟩
  · rintro ⟨callee, known, levels, body, id, r, s, reaches, circular⟩
    exact ⟨levels, body, id, r, s, ⟨callee, known, reaches⟩, circular⟩

/-- A call in the course of which no host is reached fails to end exactly where control goes round
empty blocks. Where it does not, the fuel bounds the block transitions; where it does, there is no
bound. -/
theorem ends_unless_going_round (m : Machine) (args : List Value) (c : Call)
    (hostless : ∀ levels request s, ¬ m.Passes args c maxNesting (.request levels request) s) :
    ((m.call args c).1 = .error .endless ↔ m.GoesRound args c) ∧
    (¬ m.GoesRound args c → ∀ n t s, m.PassesAfter args c n t s →
      n < (m.state.fuel + 1) * (m.image.blockCount + 1)) ∧
    (m.GoesRound args c → ∀ n, ∃ t s, m.PassesAfter args c n t s) := by
  have own {callee : Callee} (known : c.target m.image = .ok callee) :
      Hostless m.image (.call maxNesting callee args) m.state :=
    fun levels request s reaches => hostless levels request s ⟨callee, known, reaches⟩
  rw [call_endless_iff, goesRound_iff]
  refine ⟨⟨?_, ?_⟩, ?_, ?_⟩
  · rintro ⟨callee, known, isEndless⟩
    exact ⟨callee, known, circles_of_endless _ _ _ _ (own known) isEndless⟩
  · rintro ⟨callee, known, circles⟩
    exact ⟨callee, known, circles.stuck (own known)⟩
  · rintro straight n t s ⟨callee, known, moves⟩
    exact (moves.affords (own known) fun circles => straight ⟨callee, known, circles⟩).lt
  · rintro ⟨callee, known, circles⟩ n
    obtain ⟨t, s, moves⟩ := circles.moves n
    exact ⟨t, s, callee, known, moves⟩

/-- A loop with one instruction, and an empty block on the way back. -/
def pacing : Machine :=
  (ofModule {
    name := "pacing"
    functions := #[⟨"main", [], .void, some {
      blocks := #[⟨"entry", #[], some (.br ⟨1⟩)⟩,
        ⟨"loop", #[.const ⟨0⟩ (.bool true)], some (.br ⟨2⟩)⟩,
        ⟨"back", #[], some (.br ⟨1⟩)⟩]
      values := #[⟨.i1, "true"⟩] }⟩] }).setFuel 5

/-- It runs out of fuel, after less than twenty-four transitions. -/
theorem ends_unless_going_round_pacing :
    (∀ levels request s, ¬ pacing.Passes [] (.named "main") maxNesting
    (.request levels request) s) ∧
    (pacing.call [] (.named "main")).1 = .error .outOfFuel ∧ ¬ pacing.GoesRound [] (.named "main") ∧
    ∀ n t s, pacing.PassesAfter [] (.named "main") n t s → n < 24 := by
  have hostless (levels : Nat) (request : Request) (s : State) :
      ¬ pacing.Passes [] (.named "main") maxNesting (.request levels request) s := by
    rintro ⟨callee, _, reaches⟩
    exact hostless_of_no_hosts rfl levels request s reaches
  have out : (pacing.call [] (.named "main")).1 = .error .outOfFuel := by cbv
  obtain ⟨endless, bounded, _⟩ := ends_unless_going_round pacing [] (.named "main") hostless
  have straight : ¬ pacing.GoesRound [] (.named "main") := by
    rw [← endless, out]
    rintro ⟨⟩
  exact ⟨hostless, out, straight, bounded straight⟩

/-- A block that branches to itself. -/
def spinning : Machine :=
  (ofModule {
    name := "spinning"
    functions := #[⟨"main", [], .void, some {
      blocks := #[⟨"entry", #[], some (.br ⟨1⟩)⟩, ⟨"head", #[], some (.br ⟨1⟩)⟩]
      values := #[] }⟩] }).setFuel 1000

/-- No host is reached and the fuel is finite, and yet no number bounds the block transitions. -/
theorem fuel_does_not_bound_spinning :
    (∀ levels request s, ¬ spinning.Passes [] (.named "main") maxNesting
    (.request levels request) s) ∧
    spinning.state.fuel = 1000 ∧ (spinning.call [] (.named "main")).1 = .error .endless ∧
    ∀ n, ∃ t s, spinning.PassesAfter [] (.named "main") n t s := by
  have hostless (levels : Nat) (request : Request) (s : State) :
      ¬ spinning.Passes [] (.named "main") maxNesting (.request levels request) s := by
    rintro ⟨callee, _, reaches⟩
    exact hostless_of_no_hosts rfl levels request s reaches
  have isEndless : (spinning.call [] (.named "main")).1 = .error .endless := by cbv
  refine ⟨hostless, rfl, isEndless, fun n => ?_⟩
  obtain ⟨callee, known, stuck⟩ := (call_endless_iff spinning [] (.named "main")).mp isEndless
  obtain ⟨t, s, moves⟩ :=
    (circles_of_endless maxNesting callee [] spinning.state (hostless_of_no_hosts rfl) stuck).moves
      n
  exact ⟨t, s, callee, known, moves⟩

end Machine

end ShapeCompiler
