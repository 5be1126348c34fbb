import ShapeCompiler.Proofs.Projections

/-!
# What goes into captured slots

Where a body calls a function or makes a closure of it, the environment of the function is filled
from what the body has in scope. The slots of parameters and of the object are left to others.

* `Stage.reached?`: the address of the variable that a slot means in a body;
* `Environment.FilledAt`: what goes into one slot;
* `Emit.fillCapture_achieves`, `Emit.fillCapture_fails`: one slot is filled, or its variable is
  missed;
* `captures_filled`: all slots are filled unless a captured variable is missed.
-/

namespace ShapeCompiler

open Source Code Work Machine

/-! ## What slots mean -/

/-- What the variable of a slot means in a body; without a variable, what its name means. -/
def EnvSlot.meaning (slot : EnvSlot) (n : Name) (f : Frame) (w : Work) : Option Binding :=
  match slot.var with
  | some d => f.scope.variableOf d
  | none => f.scope.lookup n <|> w.moduleScope.lookup n

/-- The slot of the body's own environment that a slot is taken over from. -/
def Environment.source? (e : Environment) (env : Option CurrentEnv) (slot : EnvSlot) (i : Nat) :
    Option (CurrentEnv × Nat) :=
  match env, e.outerSlotFor i with
  | some current, some feed =>
    if slot.origin = .outer && e.outer = some current.id then some (current, feed) else none
  | _, _ => none

namespace Stage

/-- The address of a variable: its cell, or the place of a global. -/
def addressOf? (x : Stage) : Binding → Option Value
  | .cell ptr _ => some (x.values ptr)
  | .global g _ => some (.ptr (Region.global g).root)
  | _ => none

/-- The address of the variable that a slot means in the body. -/
def reached? (x : Stage) (slot : EnvSlot) (n : Name) : Option Value :=
  (slot.meaning n x.frame x.work).bind x.addressOf?

/-- The body has no variable for a captured slot. -/
def Misses (x : Stage) (slot : EnvSlot) : Prop :=
  slot.origin = .capture ∧ ∃ n, slot.name = .named n ∧ x.reached? slot n = none

end Stage

/-- What a slot holds once it is filled by a body whose own environment is in the allocation `j`.
The slot of the object, own or taken over, is not one of those that are filled here. -/
structure Environment.FilledAt (e : Environment) (x : Stage) (j i : Nat) (slot : EnvSlot)
    (old new : Option Value) : Prop where
  kept : slot.name = .receiver ∨ slot.origin = .param ∨ slot.origin = .receiver → new = old
  captured : ∀ n, slot.name = .named n → slot.origin = .capture →
    ∃ v, x.reached? slot n = some v ∧ new = some v
  takenOver : ∀ n current, slot.name = .named n → slot.origin = .outer →
    x.frame.env = some current → e.outer = some current.id →
    ∃ feed around v, e.outerSlotFor i = some feed ∧ x.memory.heap[j]? = some (.agg around) ∧
      around[feed]? = some v ∧ new = some v
  elsewhere : ∀ n, slot.name = .named n → slot.origin = .outer →
    (∀ current, x.frame.env = some current → e.outer ≠ some current.id) →
    new = (x.reached? slot n).or old

/-- A new environment of a declaration, in the allocation `k`, before a body fills it. -/
structure Environment.Opened (p : Program) (d : DeclId) (e : Environment)
    (ptr : ValueId) (j k : Nat)
    (items : List Value) (x : Stage) : Prop where
  formed : e.Formed p x.work d
  called : x.CalledWith j
  isPtr : x.Knows ptr (address k)
  cell : x.memory.heap[k]? = some (.agg items)
  length : items.length = e.slots.length
  apart : x.frame.env.isSome → j ≠ k
  /-- The cells that the slots mean are values of the body. -/
  inScope : ∀ slot ∈ e.slots, ∀ n ptr info,
    slot.meaning n x.frame x.work = some (.cell ptr info) → ptr.raw < x.size

/-- The first `n` slots are dealt with. -/
structure Environment.FilledTo (e : Environment) (s : Setup) (x : Stage) (j k : Nat)
    (items : List Value) (n : Nat) (x' : Stage) : Prop where
  goes : x.Goes s x'
  work : x'.work = x.work
  memory : ∃ items', x'.memory = x.memory.put k (.agg items') ∧ items'.length = items.length ∧
    ∀ i slot, e.slots[i]? = some slot →
      (i < n → e.FilledAt x j i slot items[i]? items'[i]?) ∧ (n ≤ i → items'[i]? = items[i]?)

namespace Environment

variable {e : Environment} {s : Setup} {p : Program} {d : DeclId} {x x' : Stage} {j k i n : Nat}
  {ptr : ValueId} {items : List Value} {slot : EnvSlot} {old new : Option Value}

/-! ### What goes into one slot -/

theorem FilledAt.of_kept (h : slot.name = .receiver ∨ slot.origin =
    .param ∨ slot.origin = .receiver) :
    e.FilledAt x j i slot old old where
  kept _ := rfl
  captured n isName isCapture := by simp [isName, isCapture] at h
  takenOver n current isName isOuter := by simp [isName, isOuter] at h
  elsewhere n isName isOuter := by simp [isName, isOuter] at h

theorem of_source?_eq_some {current : CurrentEnv} {feed : Nat}
    (source : e.source? x.frame.env slot i = some (current, feed)) : slot.origin = .outer ∧
      x.frame.env = some current ∧ e.outer = some current.id ∧ e.outerSlotFor i = some feed := by
  unfold source? at source
  split at source
  · rename_i current' feed' isCurrent isFeed
    split at source
    · rename_i same
      cases source
      simp only [Bool.and_eq_true, decide_eq_true_eq] at same
      exact ⟨same.1, isCurrent, same.2, isFeed⟩
    · cases source
  · cases source

/-- What the body's own environment holds goes into a slot that is taken over from it. -/
theorem FilledAt.of_source {current : CurrentEnv} {feed : Nat} {around : List Value} {v : Value}
    (source : e.source? x.frame.env slot i = some (current, feed)) {name : Name}
    (isName : slot.name = .named name) (cell : x.memory.heap[j]? = some (.agg around))
    (item : around[feed]? = some v) : e.FilledAt x j i slot old (some v) := by
  obtain ⟨isOuter, isCurrent, isAround, isFeed⟩ := of_source?_eq_some source
  refine ⟨fun h => by simp [isName, isOuter] at h,
    fun n _ isCapture => by simp [isOuter] at isCapture,
    fun _ _ _ _ _ _ => ⟨feed, around, v, isFeed, cell, item, rfl⟩, fun _ _ _ apart => ?_⟩
  exact absurd isAround (apart current isCurrent)

/-- Each slot that is taken over has one that feeds it. -/
theorem Formed.exists_feed {w : Work} (h : e.Formed p w d) (here : e.slots[i]? = some slot)
    (isOuter : slot.origin = .outer) : ∃ feed, e.outerSlotFor i = some feed ∧
    e.Fed w.registry i feed := by
  have listed : i ∈ e.remap.map (·.1) := by
    rw [h.remap]
    exact List.mem_map.mpr ⟨(i, slot), List.mem_filter.mpr
      ⟨mem_indexedSlots.mpr here, by simpa⟩, rfl⟩
  obtain ⟨entry, inside, isIndex⟩ := List.mem_map.mp listed
  cases found : e.remap.find? (·.1 = i) with
  | none => exact absurd isIndex (by simpa using List.find?_eq_none.mp found entry inside)
  | some entry' =>
    obtain ⟨i', feed⟩ := entry'
    obtain rfl : i' = i := by simpa using List.find?_some found
    exact ⟨feed, by simp [outerSlotFor, found], h.fed i' feed (List.mem_of_find?_eq_some found)⟩

theorem Formed.source?_eq_none {w : Work} (h : e.Formed p w d) (here : e.slots[i]? = some slot)
    (isOuter : slot.origin = .outer) (none : e.source? x.frame.env slot i = none)
    {current : CurrentEnv}
    (isCurrent : x.frame.env = some current) : e.outer ≠ some current.id := by
  obtain ⟨feed, isFeed, _⟩ := h.exists_feed here isOuter
  simpa [source?, isCurrent, isFeed, isOuter] using none

/-- What the slot means goes into one that is not taken over from the body's own environment. -/
theorem FilledAt.of_meaning {w : Work} (h : e.Formed p w d) (here : e.slots[i]? = some slot)
    (none : e.source? x.frame.env slot i = none) {name : Name} (isName : slot.name = .named name)
    (notParam : slot.origin ≠ .param) (notReceiver : slot.origin ≠ .receiver)
    (found : ¬x.Misses slot) :
    e.FilledAt x j i slot old ((x.reached? slot name).or old) := by
  have isOnly : ∀ n, slot.name = .named n → n = name := fun n isName' => by
    simpa [isName, eq_comm] using isName'
  refine ⟨fun h => by simp [isName, notParam, notReceiver] at h, fun n isName' isCapture => ?_,
    fun _ current _ isOuter isCurrent isAround => ?_, fun n isName' _ _ => ?_⟩
  · obtain rfl := isOnly n isName'
    cases reached : x.reached? slot n with
    | none => exact absurd ⟨isCapture, n, isName, reached⟩ found
    | some v => exact ⟨v, rfl, rfl⟩
  · exact absurd isAround (h.source?_eq_none here isOuter none isCurrent)
  · rw [isOnly n isName']

/-! ### Slot after slot -/

theorem FilledTo.start (opened : e.Opened p d ptr j k items x) : e.FilledTo s x j k items 0 x where
  goes := .refl x
  work := rfl
  memory := ⟨items, (Memory.put_same opened.cell).symm, rfl, fun i slot _ =>
    ⟨by simp, fun _ => rfl⟩⟩

/-- What changes no memory leaves the slots as they are. -/
theorem FilledTo.same {x'' : Stage} (h : e.FilledTo s x j k items n x') (goes : x'.Goes s x'')
    (work : x''.work = x'.work) (memory : x''.memory = x'.memory) :
    e.FilledTo s x j k items n x'' :=
  ⟨h.goes.trans goes, work.trans h.work, memory ▸ h.memory⟩

/-- Another slot is dealt with, and nothing is written. -/
theorem FilledTo.keep (h : e.FilledTo s x j k items n x') (here : e.slots[n]? = some slot)
    (filled : e.FilledAt x j n slot items[n]? items[n]?) : e.FilledTo s x j k items (n + 1) x' := by
  obtain ⟨items', isMemory, length, each⟩ := h.memory
  refine ⟨h.goes, h.work, items', isMemory, length, fun i slot' here' => ?_⟩
  obtain ⟨before, after⟩ := each i slot' here'
  refine ⟨fun le => ?_, fun le => after (by omega)⟩
  rcases Nat.lt_succ_iff_lt_or_eq.mp le with lt | rfl
  · exact before lt
  · cases here.symm.trans here'
    rw [after (Nat.le_refl _)]
    exact filled

/-- Another slot is written. -/
theorem FilledTo.put {x'' : Stage} {items' : List Value} {v : Value}
    (h : e.FilledTo s x j k items n x') (new : k < x.memory.heap.size) (long : n < items.length)
    (here : e.slots[n]? = some slot) (goes : x'.Goes s x'') (work : x''.work = x'.work)
    (cell : x'.memory.heap[k]? = some (.agg items'))
    (memory : x''.memory = x'.memory.put k (.agg (items'.set n v)))
    (filled : e.FilledAt x j n slot items[n]? (some v)) : e.FilledTo s x j k items (n + 1) x'' := by
  obtain ⟨items₀, isMemory, length, each⟩ := h.memory
  rw [isMemory, Memory.heap_put new] at cell
  obtain rfl : items₀ = items' := by simpa using cell
  refine ⟨h.goes.trans goes, work.trans h.work, items₀.set n v, ?_, by simpa,
    fun i slot' here' => ?_⟩
  · rw [memory, isMemory, Memory.put_put]
  rcases Nat.lt_trichotomy i n with before | rfl | after
  · rw [List.getElem?_set_ne (by omega)]
    exact ⟨fun _ => (each i slot' here').1 before, by omega⟩
  · cases here.symm.trans here'
    rw [List.getElem?_set_self (by omega)]
    exact ⟨fun _ => filled, by omega⟩
  · rw [List.getElem?_set_ne (by omega)]
    exact ⟨by omega, fun _ => (each i slot' here').2 (by omega)⟩

end Environment

/-! ## Filling -/

namespace Emit

variable {s : Setup} {e : Environment} {d : DeclId} {x x' : Stage} {j k i : Nat} {ptr : ValueId}
  {items : List Value} {slot : EnvSlot} {n : Name}

theorem slotMeaning_apply (slot : EnvSlot) (n : Name) (f : Frame) (s : Setup) (w : Work) :
    slotMeaning slot n f s w = .ok (slot.meaning n f w, f) w := by
  unfold slotMeaning EnvSlot.meaning
  cases slot.var <;> rfl

theorem outerSource?_apply (e : Environment) (slot : EnvSlot) (i : Nat) (f : Frame) (s : Setup)
    (w : Work) : outerSource? e slot i f s w = .ok (e.source? f.env slot i, f) w := by
  unfold outerSource? Environment.source?
  change (match f.env, e.outerSlotFor i with
    | some current, some feed => _
    | _, _ => _ : Emit _) f s w = _
  cases f.env <;> cases e.outerSlotFor i <;> rfl

/-- A value that is to be in a slot is written to it. -/
theorem storeSlot_achieves {value : ValueId} {v : Value}
    (opened : e.Opened s.program d ptr j k items x) (h : e.FilledTo s x j k items i x')
    (here : e.slots[i]? = some slot) (known : x'.Knows value v)
    (filled : e.FilledAt x j i slot items[i]? (some v)) :
    Achieves s x' (storeField e.record ptr i value) fun _ => e.FilledTo s x j k items (i + 1) := by
  obtain ⟨items', isMemory, length, _⟩ := h.memory
  have inside := (List.getElem?_eq_some_iff.mp here).1
  have old := opened.length
  have new := Memory.lt_of_heap opened.cell
  have cell : x'.memory.heap[k]? = some (.agg items') := isMemory ▸ Memory.heap_put new _
  refine ((storeField_does e.record (h.goes.knows opened.isPtr).value cell (i := i)
    (by omega)).achieves (.storeField _ _ _ _)).mono ?_
  rintro _ x'' goes ⟨work, u, memory, isValue⟩
  obtain rfl : u = v := (isValue known.inside).trans known.value
  exact h.put new (by omega) here goes work cell memory filled

theorem slotMeaning_achieves (h : e.FilledTo s x j k items i x') (slot : EnvSlot) (n : Name) :
    Achieves s x' (slotMeaning slot n) fun found x'' =>
      found = slot.meaning n x.frame x.work ∧ x' = x'' := by
  refine ⟨_, x', slotMeaning_apply slot n x'.frame s x'.work, .refl x', ?_, rfl⟩
  rw [h.goes.frame, h.work]
  rfl

/-- The variable that a slot means goes into it. -/
theorem fillByScope_achieves (opened : e.Opened s.program d ptr j k items x)
    (h : e.FilledTo s x j k items i x') (here : e.slots[i]? = some slot)
    (found : slot.origin ≠ .outer → x.reached? slot n ≠ none)
    (filled : e.FilledAt x j i slot items[i]? ((x.reached? slot n).or items[i]?)) :
    Achieves s x' (fillByScope e ptr slot i n) fun _ => e.FilledTo s x j k items (i + 1) := by
  refine .bind (slotMeaning_achieves h slot n) ?_
  rintro _ _ - ⟨rfl, rfl⟩
  have isReached : x.reached? slot n = (slot.meaning n x.frame x.work).bind x.addressOf? := rfl
  split
  · rename_i cell info isCell
    have isValue : x.reached? slot n = some (x.values cell) := by simp [isReached, isCell,
      Stage.addressOf?]
    have inside := opened.inScope slot (List.mem_of_getElem? here) n cell info isCell
    rw [isValue, Option.some_or] at filled
    exact storeSlot_achieves opened h here (h.goes.knows ⟨inside, rfl⟩) filled
  · rename_i g info isGlobal
    have isValue : x.reached? slot n = some (.ptr (Region.global g).root) := by
      simp [isReached, isGlobal, Stage.addressOf?]
    rw [isValue, Option.some_or] at filled
    refine .bind (Q := fun addr x₁ => x₁.Knows addr (.ptr (Region.global g).root) ∧
      e.FilledTo s x j k items i x₁) ((Does.write (.const (.global g) _) ?_).achieves (.write _)) ?_
    · rintro addr q goes ⟨known, memory, -⟩
      exact ⟨known, h.same ⟨.refl _, rfl, goes⟩ rfl memory⟩
    · rintro addr x₁ - ⟨known, h₁⟩
      exact storeSlot_achieves opened h₁ here known filled
  · rename_i notCell notGlobal
    have isNone : x.reached? slot n = none := by
      rw [isReached]
      cases means : slot.meaning n x.frame x.work with
      | none => rfl
      | some b =>
        cases b with
        | cell ptr info => exact absurd means (notCell ptr info)
        | global g info => exact absurd means (notGlobal g info)
        | _ => rfl
    rw [isNone, Option.none_or] at filled
    by_cases isOuter : slot.origin = .outer
    · rw [if_neg (by simpa using isOuter)]
      exact .pure (h.keep here filled)
    · exact absurd isNone (found isOuter)

/-- One slot is filled. -/
theorem fillCapture_achieves (opened : e.Opened s.program d ptr j k items x)
    (h : e.FilledTo s x j k items i x') (here : e.slots[i]? = some slot) (found : ¬x.Misses slot) :
    Achieves s x' (fillCapture e ptr slot i) fun _ => e.FilledTo s x j k items (i + 1) := by
  have sameEnv : x'.frame.env = x.frame.env := h.goes.env
  unfold fillCapture
  split
  · rename_i isName
    exact .pure (h.keep here (.of_kept (.inl isName)))
  · rename_i isParam _
    exact .pure (h.keep here (.of_kept (.inr (.inl isParam))))
  · rename_i isReceiver _
    exact .pure (h.keep here (.of_kept (.inr (.inr isReceiver))))
  · rename_i _ n isName notParam notReceiver
    refine .bind (Q := fun found x₁ => found = e.source? x.frame.env slot i ∧ x' = x₁)
      ⟨_, x', outerSource?_apply e slot i x'.frame s x'.work, .refl x', by rw [sameEnv], rfl⟩ ?_
    rintro _ _ - ⟨rfl, rfl⟩
    split
    · rename_i current feed source
      obtain ⟨isOuter, isCurrent, isAround, isFeed⟩ := Environment.of_source?_eq_some source
      obtain ⟨isPtr, own, around, isOwn, cell, length, written⟩ := opened.called current isCurrent
      -- what feeds the slot is in range, for the environment around has it
      obtain ⟨v, item⟩ : ∃ v, around[feed]? = some v := by
        obtain ⟨feed', isFeed', fed⟩ := opened.formed.exists_feed here isOuter
        obtain rfl : feed = feed' := Option.some.inj (isFeed.symm.trans isFeed')
        obtain ⟨id, own', _, b, outer, known, _, there, _⟩ := fed.fed
        obtain rfl : current.id = id := Option.some.inj (isAround.symm.trans outer)
        obtain rfl : own = own' := Option.some.inj (isOwn.symm.trans known)
        have := (List.getElem?_eq_some_iff.mp there).1
        exact ⟨_, List.getElem?_eq_getElem (by omega)⟩
      have isRecord : Compile.env current.id s x'.work = .ok own x'.work := by
        rw [Compile.env_apply, h.work, isOwn]
      have isText : Compile.text n s x'.work = .ok (s.program.text n) x'.work := rfl
      have cell' : x'.memory.heap[j]? = some (.agg around) := by
        obtain ⟨items', isMemory, _⟩ := h.memory
        rw [isMemory, Memory.heap_put_ne _ (opened.apart (by simp [isCurrent]))]
        exact cell
      refine .read isRecord (.read isText (.bind
        ((loadField_does _ _ (h.goes.knows isPtr).value cell'
        item (written v (List.mem_of_getElem? item))).achieves (.loadField _ _ _ _)) ?_))
      rintro value x₁ goes ⟨isValue, memory, work⟩
      exact storeSlot_achieves opened (h.same goes work memory) here isValue
        (.of_source source isName cell item)
    · rename_i none
      refine fillByScope_achieves opened h here
        (fun notOuter missed => found ⟨?_, n, isName, missed⟩)
        (.of_meaning opened.formed here none isName notParam notReceiver found)
      cases isOrigin : slot.origin with
      | capture => rfl
      | param => exact absurd isOrigin notParam
      | receiver => exact absurd isOrigin notReceiver
      | outer => exact absurd isOrigin notOuter

/-- A slot whose variable is missed is not filled. -/
theorem fillCapture_fails {m : Nat} (h : e.FilledTo s x j k items m x') (i : Nat)
    (missed : x.Misses slot) :
    ∃ n, slot.name = .named n ∧ fillCapture e ptr slot i x'.frame s x'.work =
      .error (.bare (.unresolvedCapture (s.program.text n))) x'.work := by
  obtain ⟨isCapture, n, isName, missed⟩ := missed
  have noSource : e.source? x'.frame.env slot i = none := by
    cases source : e.source? x'.frame.env slot i with
    | none => rfl
    | some found =>
      obtain ⟨current, feed⟩ := found
      exact absurd (Environment.of_source?_eq_some source).1 (by simp [isCapture])
  have isMeaning : slot.meaning n x'.frame x'.work = slot.meaning n x.frame x.work := by
    rw [h.goes.frame, h.work]
    rfl
  rw [Stage.reached?] at missed
  refine ⟨n, isName, ?_⟩
  simp only [fillCapture, isName, isCapture]
  rw [bind_of_ok (outerSource?_apply e slot i _ s _), noSource]
  dsimp only
  rw [fillByScope, bind_of_ok (slotMeaning_apply slot n _ s _), isMeaning]
  cases means : slot.meaning n x.frame x.work with
  | none =>
    simp only [isCapture]
    rfl
  | some b =>
    rw [means] at missed
    cases b with
    | cell ptr info => cases missed
    | global g info => cases missed
    | _ =>
      simp only [isCapture]
      rfl

/-- The first slots are filled, if no variable is missed. -/
theorem fillFirst_achieves (opened : e.Opened s.program d ptr j k items x)
    {done rest : List (EnvSlot × Nat)} (parts : e.slots.zipIdx = done ++ rest)
    (found : ∀ entry ∈ done, ¬x.Misses entry.1) :
    Achieves s x (done.forM fun entry => fillCapture e ptr entry.1 entry.2) fun _ =>
      e.FilledTo s x j k items done.length := by
  refine .forM (fun done => e.FilledTo s x j k items done.length) done (.start opened) ?_
  rintro before ⟨slot, i⟩ after isDone x' _ h
  obtain ⟨here, rfl⟩ : e.slots[i]? = some slot ∧ i = before.length :=
    of_zipIdx_append (by rw [parts, isDone, List.append_assoc, List.cons_append])
  rw [List.length_append]
  exact fillCapture_achieves opened h here (found (slot, _) (by simp [isDone]))

/-- Filling stops at the first slot whose variable is missed. -/
theorem fillCaptures_fails (opened : e.Opened s.program d ptr j k items x)
    (missed : ∃ slot ∈ e.slots, x.Misses slot) : ∃ slot ∈ e.slots, ∃ n w', x.Misses slot ∧
      slot.name = .named n ∧ fillCaptures e ptr x.frame s x.work =
        .error (.bare (.unresolvedCapture (s.program.text n))) w' := by
  classical
  cases first : e.slots.zipIdx.find? fun entry => decide (x.Misses entry.1) with
  | none =>
    obtain ⟨slot, inside, missed⟩ := missed
    obtain ⟨i, here⟩ := List.getElem?_of_mem inside
    have listed : (slot, i) ∈ e.slots.zipIdx := List.mem_zipIdx_iff_getElem?.mpr here
    exact absurd (decide_eq_true missed) (List.find?_eq_none.mp first _ listed)
  | some entry =>
    obtain ⟨slot, i⟩ := entry
    obtain ⟨isMissed, done, rest, parts, others⟩ := List.find?_eq_some_iff_append.mp first
    have found : ∀ entry ∈ done, ¬x.Misses entry.1 := fun entry inside => by
      simpa using others entry inside
    obtain ⟨_, x', ran, -, h⟩ := fillFirst_achieves opened parts found
    obtain ⟨n, isName, fails⟩ := fillCapture_fails h i (of_decide_eq_true isMissed)
    have listed : (slot, i) ∈ e.slots.zipIdx := by simp [parts]
    refine ⟨slot, List.fst_mem_of_mem_zipIdx listed, n, x'.work,
      of_decide_eq_true isMissed, isName, ?_⟩
    have unrolled : fillCaptures e ptr = (do
        done.forM fun entry => fillCapture e ptr entry.1 entry.2
        fillCapture e ptr slot i
        rest.forM fun entry => fillCapture e ptr entry.1 entry.2) := by
      rw [fillCaptures, parts]
      exact List.forM_append
    rw [unrolled, bind_of_ok ran]
    change (fillCapture e ptr slot i x'.frame >>= _) s x'.work = _
    rw [Compile.bind_apply, fails]

end Emit

/-! ## All slots -/

/-- A body fills a new environment: the slots of captured variables with the cells or globals that
the variables are here, whatever their names mean; the slots taken over with what the body's own
environment holds if they come from there, and otherwise with the variables that they mean, if any;
and no others. It fails exactly if a captured variable is missed. -/
theorem captures_filled (p : Program) (r : Resolver) (c : Config) {d : DeclId} {e : Environment}
    {ptr : ValueId} {j k : Nat} {items : List Value} {x : Stage}
    (opened : e.Opened p d ptr j k items x) :
    ((∃ failure w', Emit.fillCaptures e ptr x.frame (.of p r c) x.work = .error failure w') ↔
      ∃ slot ∈ e.slots, x.Misses slot) ∧
    (∀ failure w', Emit.fillCaptures e ptr x.frame (.of p r c) x.work = .error failure w' →
      ∃ slot ∈ e.slots, ∃ n, x.Misses slot ∧ slot.name = .named n ∧
        failure = .bare (.unresolvedCapture (p.text n))) ∧
    ((∀ slot ∈ e.slots, ¬x.Misses slot) →
      Emit.Achieves (.of p r c) x (Emit.fillCaptures e ptr) fun _ x' => x'.work = x.work ∧
        ∃ items', x'.memory = x.memory.put k (.agg items') ∧ items'.length = items.length ∧
          ∀ i slot, e.slots[i]? = some slot → e.FilledAt x j i slot items[i]? items'[i]?) := by
  have opened : e.Opened (Setup.of p r c).program d ptr j k items x := opened
  have achieves (found : ∀ slot ∈ e.slots, ¬x.Misses slot) :
      Emit.Achieves (.of p r c) x (Emit.fillCaptures e ptr) fun _ x' => x'.work = x.work ∧
        ∃ items', x'.memory = x.memory.put k (.agg items') ∧ items'.length = items.length ∧
          ∀ i slot, e.slots[i]? = some slot → e.FilledAt x j i slot items[i]? items'[i]? := by
    refine (Emit.fillFirst_achieves opened (List.append_nil _).symm fun entry inside => ?_).mono ?_
    · exact found entry.1 (List.fst_mem_of_mem_zipIdx inside)
    · rintro _ x' - h
      obtain ⟨items', isMemory, length, each⟩ := h.memory
      refine ⟨h.work, items', isMemory, length, fun i slot here => (each i slot here).1 ?_⟩
      simpa using (List.getElem?_eq_some_iff.mp here).1
  have fails (missed : ∃ slot ∈ e.slots, x.Misses slot) : ∃ slot ∈ e.slots, ∃ n w', x.Misses slot ∧
      slot.name = .named n ∧ Emit.fillCaptures e ptr x.frame (.of p r c) x.work =
        .error (.bare (.unresolvedCapture (p.text n))) w' :=
    Emit.fillCaptures_fails opened missed
  have missed_of_error (failure w')
      (ran : Emit.fillCaptures e ptr x.frame (.of p r c) x.work = .error failure w') :
      ∃ slot ∈ e.slots, x.Misses slot := by
    by_contra none
    obtain ⟨_, _, ran', _⟩ := achieves fun slot inside missed => none ⟨slot, inside, missed⟩
    cases ran.symm.trans ran'
  refine ⟨⟨fun ⟨failure, w', ran⟩ => ?_, fun missed => ?_⟩, fun failure w' ran => ?_, achieves⟩
  · exact missed_of_error failure w' ran
  · obtain ⟨_, _, n, w', _, _, ran⟩ := fails missed
    exact ⟨_, w', ran⟩
  · obtain ⟨slot, inside, n, w₁, missed, isName, ran₁⟩ := fails (missed_of_error failure w' ran)
    cases ran.symm.trans ran₁
    exact ⟨slot, inside, n, missed, isName, rfl⟩

/-- A function in a function in a function. The innermost one captures a parameter of the one
around, whose environment also has a variable and a parameter of the outermost one. -/
@[irreducible] def threeNested : Program := (Id.run <| StateT.run (do
  let call (f : String) := do Construction.stmt (.expr (← Construction.expr
    (.call (← Construction.ident f) [← Construction.expr (.number 1)] none)))
  let p ← Construction.param "p" .number
  let (x, _) ← Construction.bind "x" none (some (← Construction.expr (.number 1)))
  let q ← Construction.param "q" .number
  let r ← Construction.param "r" .number
  let inner ← Construction.function "inner" [] [r] none
    [← Construction.stmt (.ret (some (← Construction.ident "q")))]
  let sum ← Construction.expr (.binary .add (← Construction.ident "x") (← Construction.ident "p"))
  let middle ← Construction.function "middle" [] [q] none [← Construction.stmt (.function inner),
    ← call "inner", ← Construction.stmt (.ret (some sum))]
  let outer ← Construction.function "outer" [] [p] none [x, ← Construction.stmt (.function middle),
    ← call "middle"]
  Construction.pushEntry (← Construction.stmt (.function outer))
  Construction.pushEntry (← call "outer") : Building Unit) {}).2.program

/-- The state once the program is compiled. -/
def threeNestedWork : Work :=
  Compile.endOf (Compile.entry (.ofDepth 20)) (.of threeNested .ambient {}) .start

/-- A place in the middle function where the name of its parameter means another variable. Its
environment is in the first allocation, and a new one of the innermost function in the second. -/
def shadowed : Stage where
  work := threeNestedWork
  frame := { givenObject with
    draft := Draft.start ⟨0⟩ [.ptr, .ptr, .ptr, .ptr]
    scope := (Scope.empty.bindHidden ⟨2⟩ ⟨2⟩ .number).bind ⟨3⟩ (.cell ⟨3⟩ .number)
    env := some ⟨⟨1⟩, ⟨0⟩⟩ }
  values := fun v => address v.raw
  memory := { heap := #[.agg [address 4, address 5, address 6], .agg [.null, .null, .null, .null]] }
  place := ⟨0⟩
  isOpen := ⟨rfl, _, rfl, rfl⟩

/-- The parameter is found behind the other variable of its name, and the two variables of the
outermost function are taken over. -/
theorem captures_filled_threeNested : ∃ e, threeNestedWork.registry.env? ⟨2⟩ = some e ∧
    Emit.Achieves (.of threeNested .ambient {}) shadowed (Emit.fillCaptures e ⟨1⟩) fun _ x' =>
      x'.memory.heap[1]? = some (.agg [.null, address 2, address 5, address 6]) := by
  have known : (threeNestedWork.registry.env? ⟨2⟩).map (fun e => decide
      (e.owner = some ⟨4⟩ ∧ e.outer = some ⟨1⟩ ∧ e.remap = [(2, 1), (3, 2)] ∧
        e.slots = [⟨.named ⟨4⟩, .number, .param, some ⟨3⟩⟩,
          ⟨.named ⟨3⟩, .number, .capture, some ⟨2⟩⟩,
          ⟨.named ⟨2⟩, .number, .outer, some ⟨1⟩⟩, ⟨.named ⟨1⟩, .number, .outer, some ⟨0⟩⟩])) =
      some true := by
    decide +kernel
  have around : (threeNestedWork.registry.env? ⟨1⟩).map (·.slots.length) = some 3 := by
    decide +kernel
  obtain ⟨e, isEnv, isForm⟩ := Option.map_eq_some_iff.mp known
  obtain ⟨own, isOwn, length⟩ := Option.map_eq_some_iff.mp around
  obtain ⟨owned, isOuter, isRemap, isSlots⟩ := of_decide_eq_true isForm
  have parameter : shadowed.frame.scope.variableOf ⟨2⟩ = some (.cell ⟨2⟩ .number) := rfl
  have others : ∀ d, d ≠ ⟨2⟩ → shadowed.frame.scope.variableOf d = none := fun d apart => by
    simp [shadowed, Scope.variableOf, Scope.bind, Scope.bindHidden, Table.get?,
      Table.insert, Table.put,
      Table.find?, Scope.empty, EmptyCollection.emptyCollection, Table.empty, apart.symm]
  have opened : e.Opened threeNested ⟨4⟩ ⟨1⟩ 0 1 [.null, .null, .null, .null] shadowed := by
    refine ⟨(compile_moment 20 threeNested .ambient {}).formed isEnv owned, ?_,
      ⟨by decide, rfl⟩, rfl,
      by simp [isSlots], by simp, fun slot inside n ptr info means => ?_⟩
    · rintro _ ⟨⟩
      exact ⟨⟨by decide, rfl⟩, own, _, isOwn, rfl, by simp [length], by simp [address]⟩
    · rw [isSlots] at inside
      have isVar : ∃ d, slot.var = some d := by
        revert slot
        simp
      obtain ⟨d, isVar⟩ := isVar
      simp only [EnvSlot.meaning, isVar] at means
      by_cases isParameter : d = ⟨2⟩
      · subst isParameter
        cases parameter.symm.trans means
        decide
      · rw [others d isParameter] at means
        cases means
  obtain ⟨-, -, fills⟩ := captures_filled threeNested .ambient {} opened
  have found : ∀ slot ∈ e.slots, ¬shadowed.Misses slot := by
    rw [isSlots]
    rintro slot inside ⟨isCapture, n, isName, missed⟩
    have isVar : slot.var = some ⟨2⟩ := by
      revert slot
      simp
    simp [Stage.reached?, EnvSlot.meaning, isVar, parameter, Stage.addressOf?] at missed
  refine ⟨e, isEnv, (fills found).mono ?_⟩
  rintro _ x' - ⟨-, items', isMemory, length', each⟩
  have first := (each 0 _ (by rw [isSlots]; rfl)).kept (.inr (.inl rfl))
  obtain ⟨_, reached, second⟩ := (each 1 _ (by rw [isSlots]; rfl)).captured _ rfl rfl
  cases reached
  have taken (i feed : Nat) (slot : EnvSlot) (n : Name) (here : e.slots[i]? = some slot)
      (isName : slot.name = .named n) (isTaken : slot.origin = .outer)
      (isFeed : e.outerSlotFor i = some feed) :
      items'[i]? = [address 4, address 5, address 6][feed]? := by
    obtain ⟨feed', around, v, isFeed', cell, item, new⟩ :=
      (each i slot here).takenOver n _ isName isTaken rfl isOuter
    cases isFeed.symm.trans isFeed'
    cases cell
    rw [new, item]
  have third := taken 2 1 _ _ (by rw [isSlots]; rfl) rfl rfl (by
    rw [Environment.outerSlotFor, isRemap]
    rfl)
  have fourth := taken 3 2 _ _ (by rw [isSlots]; rfl) rfl rfl (by
    rw [Environment.outerSlotFor, isRemap]
    rfl)
  have isItems : items' = [.null, address 2, address 5, address 6] := by
    refine List.ext_getElem? fun i => ?_
    obtain _ | _ | _ | _ | i := i
    · exact first
    · exact second
    · exact third
    · exact fourth
    · rw [List.getElem?_eq_none (by simp [length']), List.getElem?_eq_none (by simp)]
  rw [isMemory, isItems]
  exact Memory.heap_put (by decide) _

/-- An arrow in a method. Its environment takes the object over from that of the method. -/
@[irreducible] def arrowInMethod : Program := (Id.run <| StateT.run (do
  let cls ← Construction.classDecl "C" none .none
  let (arrow, _) ← Construction.arrow [] [] none (.expr (← Construction.expr (.number 1)))
  let (f, _) ← Construction.bind "f" none (some arrow)
  let result ← Construction.expr (.call (← Construction.ident "f") [] none)
  discard <| Construction.method cls "m" [] (some .number)
    [f, ← Construction.stmt (.ret (some result))] .none
  Construction.pushEntry (← Construction.stmt (.classDecl cls))
  let call ← Construction.methodCall (← Construction.expr (.construct cls [])) "m" []
  Construction.pushEntry (← Construction.stmt (.expr call)) : Building Unit) {}).2.program

/-- The state once the program is compiled. -/
def arrowInMethodWork : Work :=
  Compile.endOf (Compile.entry (.ofDepth 20)) (.of arrowInMethod .ambient {}) .start

/-- A place in the method. Its environment, in the first allocation, holds the object; a new
environment of the arrow is in the second one. -/
def inMethod : Stage where
  work := arrowInMethodWork
  frame := { givenObject with
    draft := Draft.start ⟨0⟩ [.ptr, .ptr]
    env := some ⟨⟨1⟩, ⟨0⟩⟩ }
  values := fun v => address v.raw
  memory := { heap := #[.agg [address 4], .agg [.null]] }
  place := ⟨0⟩
  isOpen := ⟨rfl, _, rfl, rfl⟩

/-- The slot of the object is taken over from the method's environment, which holds the object, and
yet filling the captures writes nothing into it. -/
theorem object_not_taken_over : ∃ e slot current,
    arrowInMethodWork.registry.env? ⟨2⟩ = some e ∧
    e.Opened arrowInMethod ⟨1⟩ ⟨1⟩ 0 1 [.null] inMethod ∧ e.slots = [slot] ∧
    slot.name = .receiver ∧ slot.origin = .outer ∧
    inMethod.frame.env = some current ∧ e.outer = some current.id ∧ e.outerSlotFor 0 = some 0 ∧
    inMethod.memory.heap[0]? = some (.agg [address 4]) ∧
    Emit.Achieves (.of arrowInMethod .ambient {}) inMethod (Emit.fillCaptures e ⟨1⟩) fun _ x' =>
      x'.memory.heap[1]? = some (.agg [.null]) := by
  have known : (arrowInMethodWork.registry.env? ⟨2⟩).map (fun e => decide
      (e.owner = some ⟨1⟩ ∧ e.outer = some ⟨1⟩ ∧ e.remap = [(0, 0)] ∧
        e.slots.map (fun slot => (slot.name, slot.origin, slot.var)) =
          [(.receiver, .outer, none)])) = some true := by
    decide +kernel
  have around : (arrowInMethodWork.registry.env? ⟨1⟩).map (·.slots.length) = some 1 := by
    decide +kernel
  have isTop : arrowInMethodWork.moduleScope.bindings.entries.map Prod.snd = [.classDecl ⟨0⟩] := by
    decide +kernel
  obtain ⟨e, isEnv, isForm⟩ := Option.map_eq_some_iff.mp known
  obtain ⟨own, isOwn, length⟩ := Option.map_eq_some_iff.mp around
  obtain ⟨owned, isOuter, isRemap, isSlots⟩ := of_decide_eq_true isForm
  obtain ⟨slot, isSlot, form⟩ := List.map_eq_singleton_iff.mp isSlots
  obtain ⟨isName, isOrigin, isVar⟩ : slot.name = .receiver ∧ slot.origin = .outer ∧
      slot.var = none := by simpa using form
  have opened : e.Opened arrowInMethod ⟨1⟩ ⟨1⟩ 0 1 [.null] inMethod := by
    refine ⟨(compile_moment 20 arrowInMethod .ambient {}).formed isEnv owned, ?_, ⟨by decide, rfl⟩,
      rfl, by simp [isSlot], by simp, fun slot' inside n ptr info means => ?_⟩
    · rintro _ ⟨⟩
      exact ⟨⟨by decide, rfl⟩, own, _, isOwn, rfl, by simp [length], by simp [address]⟩
    · obtain rfl : slot' = slot := by simpa [isSlot] using inside
      simp only [EnvSlot.meaning, isVar] at means
      have bound : arrowInMethodWork.moduleScope.lookup n = some (.cell ptr info) := means
      have listed := Table.mem_of_get? bound
      rw [isTop] at listed
      simp at listed
  refine ⟨e, slot, ⟨⟨1⟩, ⟨0⟩⟩, isEnv, opened, isSlot, isName, isOrigin, rfl, isOuter, ?_, rfl, ?_⟩
  · rw [Environment.outerSlotFor, isRemap]
    rfl
  · have nothing : Emit.fillCaptures e ⟨1⟩ = pure () := by
      simp [Emit.fillCaptures, Emit.fillCapture, isSlot, isName]
    rw [nothing]
    exact .pure rfl

end ShapeCompiler
