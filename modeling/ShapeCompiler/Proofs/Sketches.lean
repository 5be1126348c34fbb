import ShapeCompiler.Proofs.Straight

/-!
# Well-formed bodies

* `Body.WellFormed`: every block is left, every value is defined once, and what is used has been
  computed on every way to its use;
* `Sketch`: what is promised of a body that is still being written;
* `Draft.Fits`: the draft keeps the promises so far;
* `Draft.Fits.wellFormed`: a draft that keeps its promises and leaves no block open is well formed;
* `Writing.Sound`: a step of writing keeps the promises, and which calls it adds.

A promise says which values every way to a block has computed. It is made when the block is opened
and never changes, so that a block may be entered before all ways to it are written.
-/

namespace ShapeCompiler

open Source Code Work

namespace Code

/-! ## Bodies -/

/-- The instruction at a position defines the value. -/
def DefinesAt (blocks : Array Block) (b i : Nat) (v : ValueId) : Prop :=
  ∃ k inst, blocks[b]? = some k ∧ k.insts[i]? = some inst ∧ inst.defined? = some v

/-- The function that an instruction calls directly, with the number of arguments. -/
def Inst.callee? : Inst → Option (FuncId × Nat)
  | .call _ func args => some (func, args.length)
  | _ => none

/-- Some instruction calls the function directly, with so many arguments. -/
def CallsIn (blocks : Array Block) (f : FuncId) (n : Nat) : Prop :=
  ∃ (b : Nat) (k : Block), blocks[b]? = some k ∧ ∃ inst ∈ k.insts, inst.callee? = some (f, n)

namespace Body

/-- The body calls the function directly, with so many arguments. -/
def Calls (body : Body) : FuncId → Nat → Prop := CallsIn body.blocks

/-- The blocks on a way from the entry, and the block it leads to. -/
inductive Way (body : Body) : List BlockId → BlockId → Prop where
  | entry : Way body [] ⟨0⟩
  | step {before : List BlockId} {a b : BlockId} {k : Block} {e : Exit} (way : Way body before a)
    (here : body.blocks[a.raw]? = some k) (leaves : k.exit = some e) (leads : b ∈ e.targets) :
    Way body (before ++ [a]) b

/-- The value is a parameter, or an instruction on the way computes it, among the first `n` of the
last block. -/
def Computed (body : Body) (params : Nat) (before : List BlockId) (b : BlockId) (n : Nat)
    (v : ValueId) : Prop :=
  v.raw < params ∨ (∃ a ∈ before, ∃ i, DefinesAt body.blocks a.raw i v) ∨
    ∃ i < n, DefinesAt body.blocks b.raw i v

/-- The body of a function with so many parameters. -/
structure WellFormed (params : Nat) (body : Body) : Prop where
  entered : 0 < body.blocks.size
  left : ∀ (b : Nat) (k : Block), body.blocks[b]? = some k →
    ∃ e, k.exit = some e ∧ ∀ t ∈ e.targets, t.raw < body.blocks.size
  room : params ≤ body.values.size
  /-- Instructions define no parameter. -/
  range : ∀ b i v, DefinesAt body.blocks b i v → params ≤ v.raw ∧ v.raw < body.values.size
  once : ∀ v : ValueId, params ≤ v.raw → v.raw < body.values.size →
    ∃! place : Nat × Nat, DefinesAt body.blocks place.1 place.2 v
  insts : ∀ before b k i inst, body.Way before b → body.blocks[b.raw]? = some k →
    k.insts[i]? = some inst → ∀ v ∈ inst.operands, body.Computed params before b i v
  exits : ∀ before b k e, body.Way before b → body.blocks[b.raw]? = some k → k.exit = some e →
    ∀ v ∈ e.operands, body.Computed params before b k.insts.size v

end Body

theorem DefinesAt.lt {blocks : Array Block} {b i : Nat} {v : ValueId} {k : Block}
    (h : DefinesAt blocks b i v) (here : blocks[b]? = some k) : i < k.insts.size := by
  obtain ⟨k', inst, there, at_, _⟩ := h
  obtain rfl : k = k' := by simpa [here] using there
  exact (Array.getElem?_eq_some_iff.mp at_).1

/-- One more instruction at the end of a block. -/
theorem definesAt_push {blocks : Array Block} {b : Nat} {k : Block} (inst : Inst)
    (here : blocks[b]? = some k) {b' i : Nat} {v : ValueId} :
    DefinesAt (blocks.modify b fun k => { k with insts := k.insts.push inst }) b' i v ↔
      DefinesAt blocks b' i v ∨ b' = b ∧ i = k.insts.size ∧ inst.defined? = some v := by
  by_cases same : b' = b
  · subst same
    simp only [DefinesAt, Array.getElem?_modify, here, if_true, Option.map_some,
      Option.some.injEq, true_and]
    by_cases last : i = k.insts.size
    · simp [last]
    · simp [Array.getElem?_push, last]
  · simp [DefinesAt, Array.getElem?_modify, same, Ne.symm same]

/-- Leaving a block defines nothing. -/
theorem definesAt_exit {blocks : Array Block} {b : Nat} (e : Exit) {b' i : Nat} {v : ValueId} :
    DefinesAt (blocks.modify b fun k => { k with exit := some e }) b' i v ↔
      DefinesAt blocks b' i v := by
  by_cases same : b = b'
  · subst same
    cases here : blocks[b]? with
    | none => simp [DefinesAt, Array.getElem?_modify, here]
    | some k => simp [DefinesAt, Array.getElem?_modify, here]
  · simp [DefinesAt, Array.getElem?_modify, same]

/-- A new block defines nothing. -/
theorem definesAt_block {blocks : Array Block} (name : String) {b i : Nat} {v : ValueId} :
    DefinesAt (blocks.push ⟨name, #[], none⟩) b i v ↔ DefinesAt blocks b i v := by
  by_cases last : b = blocks.size
  · subst last
    simp [DefinesAt]
  · simp [DefinesAt, Array.getElem?_push, last]

/-- An instruction adds the call that it is. -/
theorem CallsIn.of_push {blocks : Array Block} {b : Nat} {inst : Inst} {f : FuncId} {n : Nat}
    (h : CallsIn (blocks.modify b fun k => { k with insts := k.insts.push inst }) f n) :
    CallsIn blocks f n ∨ inst.callee? = some (f, n) := by
  obtain ⟨b', k, here, inst', inside, calls⟩ := h
  rw [Array.getElem?_modify] at here
  split at here
  · obtain ⟨k₀, there, rfl⟩ := Option.map_eq_some_iff.mp here
    rcases Array.mem_push.mp inside with old | rfl
    · exact .inl ⟨b', k₀, there, inst', old, calls⟩
    · exact .inr calls
  · exact .inl ⟨b', k, here, inst', inside, calls⟩

/-- Leaving a block calls nothing. -/
theorem CallsIn.of_exit {blocks : Array Block} {b : Nat} {e : Exit} {f : FuncId} {n : Nat}
    (h : CallsIn (blocks.modify b fun k => { k with exit := some e }) f n) :
    CallsIn blocks f n := by
  obtain ⟨b', k, here, inst, inside, calls⟩ := h
  rw [Array.getElem?_modify] at here
  split at here
  · obtain ⟨k₀, there, rfl⟩ := Option.map_eq_some_iff.mp here
    exact ⟨b', k₀, there, inst, inside, calls⟩
  · exact ⟨b', k, here, inst, inside, calls⟩

/-- A new block calls nothing. -/
theorem CallsIn.of_block {blocks : Array Block} {name : String} {f : FuncId} {n : Nat}
    (h : CallsIn (blocks.push ⟨name, #[], none⟩) f n) : CallsIn blocks f n := by
  obtain ⟨b, k, here, inst, inside, calls⟩ := h
  rcases of_getElem?_push here with ⟨_, rfl⟩ | here
  · simp at inside
  · exact ⟨b, k, here, inst, inside, calls⟩

/-! ## Sketches -/

/-- What is promised of a body that is being written. -/
structure Sketch where
  params : Nat
  /-- Every way to the beginning of the block has computed the value. -/
  given : BlockId → ValueId → Prop
  /-- The block is still to be written. -/
  pending : BlockId → Prop

/-- The block has the value once its instructions ran. -/
def Sketch.Holds (g : Sketch) (blocks : Array Block) (b : BlockId) (v : ValueId) : Prop :=
  g.given b v ∨ ∃ i, DefinesAt blocks b.raw i v

/-- One more block that waits, with a promise of its own. -/
def Sketch.withBlock (g : Sketch) (b : BlockId) (has : ValueId → Prop) : Sketch where
  params := g.params
  given b' v := if b' = b then has v else g.given b' v
  pending b' := g.pending b' ∨ b' = b

/-- The block no longer waits. -/
def Sketch.without (g : Sketch) (b : BlockId) : Sketch :=
  { g with pending := fun b' => g.pending b' ∧ b' ≠ b }

namespace Draft

/-- The draft keeps the promises. -/
structure Fits (d : Draft) (g : Sketch) : Prop where
  entered : 0 < d.blocks.size
  entry : ∀ v, g.given ⟨0⟩ v → v.raw < g.params
  room : g.params ≤ d.values.size
  range : ∀ b i v, DefinesAt d.blocks b i v → g.params ≤ v.raw ∧ v.raw < d.values.size
  once : ∀ v : ValueId, g.params ≤ v.raw → v.raw < d.values.size →
    ∃! place : Nat × Nat, DefinesAt d.blocks place.1 place.2 v
  insts : ∀ (b : BlockId) k i inst, d.blocks[b.raw]? = some k → k.insts[i]? = some inst →
    ∀ v ∈ inst.operands, g.given b v ∨ ∃ j < i, DefinesAt d.blocks b.raw j v
  operands : ∀ (b : BlockId) k e, d.blocks[b.raw]? = some k → k.exit = some e →
    ∀ v ∈ e.operands, g.Holds d.blocks b v
  targets : ∀ (b : BlockId) k e, d.blocks[b.raw]? = some k → k.exit = some e →
    ∀ t ∈ e.targets, t.raw < d.blocks.size ∧ ∀ v, g.given t v → g.Holds d.blocks b v
  open_ : ∀ (b : BlockId) k, d.blocks[b.raw]? = some k → k.exit = none →
    g.pending b ∨ d.current = some b
  here : ∀ b, d.current = some b → b.raw < d.blocks.size
  pending : ∀ b, g.pending b → d.current ≠ some b ∧ ∃ name, d.blocks[b.raw]? =
    some ⟨name, #[], none⟩

/-- The value is there at the place where the draft goes on. -/
def Has (d : Draft) (g : Sketch) (v : ValueId) : Prop :=
  ∃ b, d.Open b ∧ g.Holds d.blocks b v

/-- What is written so far calls the function directly, with so many arguments. -/
def Calls (d : Draft) : FuncId → Nat → Prop := CallsIn d.blocks

/-- The draft goes on in a block without an exit. -/
def IsOpen (d : Draft) : Prop := ∃ b, d.Open b

variable {d d' d'' : Draft} {g g' g'' : Sketch} {b : BlockId} {v : ValueId}

theorem Open.unique {b b' : BlockId} (h : d.Open b) (h' : d.Open b') : b = b' := by
  have := h.here.symm.trans h'.here
  simpa using this

theorem Open.has_iff (h : d.Open b) : d.Has g v ↔ g.Holds d.blocks b v := by
  constructor
  · rintro ⟨b', open', holds⟩
    rwa [h.unique open']
  · intro holds
    exact ⟨b, h, holds⟩

/-- A value that every way has computed. -/
theorem Fits.computed {body : Body} (h : d.Fits g) (same : body.blocks = d.blocks)
    {before : List BlockId} (way : body.Way before b) (given : g.given b v) :
    v.raw < g.params ∨ ∃ a ∈ before, ∃ i, DefinesAt body.blocks a.raw i v := by
  induction way with
  | entry => exact .inl (h.entry v given)
  | @step before a b k e _ here leaves leads ih =>
    rw [same] at here
    rcases (h.targets a k e here leaves b leads).2 v given with earlier | ⟨i, now⟩
    · rcases ih earlier with isParam | ⟨a', inside, i, defines⟩
      · exact .inl isParam
      · exact .inr ⟨a', List.mem_append_left _ inside, i, defines⟩
    · rw [← same] at now
      exact .inr ⟨a, by simp, i, now⟩

/-- A draft that leaves no block open is a well-formed body. -/
theorem Fits.wellFormed (h : d.Fits g) (nothing : ∀ b, ¬ g.pending b)
    (closed : d.isClosed = true) : d.finish.WellFormed g.params := by
  have leaves (b : BlockId) (k : Block) (here : d.blocks[b.raw]? = some k) :
      ∃ e, k.exit = some e := by
    cases isLeft : k.exit with
    | some e => exact ⟨e, rfl⟩
    | none =>
      rcases h.open_ b k here isLeft with waits | current
      · exact absurd waits (nothing b)
      · simp [isClosed, current, here, isLeft] at closed
  have computed {before : List BlockId} {b : BlockId} {v : ValueId} (n : Nat)
      (way : d.finish.Way before b)
      (holds : g.given b v ∨ ∃ i < n, DefinesAt d.blocks b.raw i v) :
      d.finish.Computed g.params before b n v := by
    rcases holds with given | now
    · rcases h.computed rfl way given with isParam | earlier
      · exact .inl isParam
      · exact .inr (.inl earlier)
    · exact .inr (.inr now)
  constructor
  · exact h.entered
  · intro b k here
    obtain ⟨e, isExit⟩ := leaves ⟨b⟩ k here
    exact ⟨e, isExit, fun t leads => (h.targets ⟨b⟩ k e here isExit t leads).1⟩
  · exact h.room
  · exact h.range
  · exact h.once
  · intro before b k i inst way here at_ v uses
    exact computed i way (h.insts b k i inst here at_ v uses)
  · intro before b k e way here isExit v uses
    apply computed _ way
    rcases h.operands b k e here isExit v uses with given | ⟨i, now⟩
    · exact .inl given
    · exact .inr ⟨i, now.lt here, now⟩

/-! ## Writing -/

/-- The promises so far stay. -/
structure Grown (d : Draft) (g : Sketch) (d' : Draft) (g' : Sketch) : Prop where
  params : g'.params = g.params
  given : ∀ b : BlockId, b.raw < d.blocks.size → g'.given b = g.given b
  blocks : d.blocks.size ≤ d'.blocks.size

theorem Grown.refl (d : Draft) (g : Sketch) : d.Grown g d g :=
  ⟨rfl, fun _ _ => rfl, Nat.le_refl _⟩

theorem Grown.trans (h : d.Grown g d' g') (h' : d'.Grown g' d'' g'') : d.Grown g d'' g'' := by
  refine ⟨h'.params.trans h.params, ?_, Nat.le_trans h.blocks h'.blocks⟩
  intro b inside
  rw [h'.given b (Nat.lt_of_lt_of_le inside h.blocks), h.given b inside]

theorem Fits.start (func : FuncId) (params : List TyId) :
    (Draft.start func params).Fits ⟨params.length, fun _ v => v.raw < params.length,
    fun _ => False⟩ := by
  have only {b : Nat} {k : Block} (here : (Draft.start func params).blocks[b]? = some k) :
      b = 0 ∧ k = ⟨"entry", #[], none⟩ := by
    simp only [Draft.start, List.getElem?_toArray] at here
    rcases b with _ | b
    · simpa using here.symm
    · simp at here
  have none {b i : Nat} {v : ValueId} : ¬ DefinesAt (Draft.start func params).blocks b i v := by
    rintro ⟨k, inst, here, at_, _⟩
    obtain ⟨_, rfl⟩ := only here
    simp at at_
  constructor
  · simp [Draft.start]
  · exact fun v isParam => isParam
  · simp [Draft.start]
  · exact fun b i v defines => absurd defines none
  · intro v low high
    simp [Draft.start] at low high
    omega
  · intro b k i inst here at_
    obtain ⟨_, rfl⟩ := only here
    simp at at_
  · intro b k e here isExit
    obtain ⟨_, rfl⟩ := only here
    cases isExit
  · intro b k e here isExit
    obtain ⟨_, rfl⟩ := only here
    cases isExit
  · intro b k here _
    obtain ⟨isEntry, _⟩ := only here
    right
    obtain ⟨b⟩ := b
    cases isEntry
    rfl
  · intro b current
    cases current
    simp [Draft.start]
  · exact fun b waits => waits.elim

/-- A draft that begins calls nothing. -/
theorem not_calls_start (func : FuncId) (params : List TyId) (f : FuncId) (n : Nat) :
    ¬ (Draft.start func params).Calls f n := by
  rintro ⟨b, k, here, inst, inside, _⟩
  have only : k ∈ [(⟨"entry", #[], none⟩ : Block)] := by
    simpa [Draft.start] using Array.mem_of_getElem? here
  rw [List.mem_singleton.mp only] at inside
  simp at inside

theorem isOpen_start (func : FuncId) (params : List TyId) : (Draft.start func params).IsOpen :=
  ⟨⟨0⟩, rfl, _, rfl, rfl⟩

section Emit

variable {b' : BlockId} {k : Block} {inst : Inst} {notes : Array ValueNote}

/-- What a block was before another instruction stood at the end of one. -/
theorem block_of_push {k' : Block} (isBlock : d.blocks[b.raw]? = some k)
    (there : (d.blocks.modify b.raw fun k => { k with insts := k.insts.push inst })[b'.raw]? =
      some k') :
    ∃ k₀, d.blocks[b'.raw]? = some k₀ ∧ k'.exit = k₀.exit ∧
      (k' = k₀ ∨ b' = b ∧ k₀ = k ∧ k'.insts = k.insts.push inst) := by
  by_cases same : b' = b
  · subst same
    simp only [Array.getElem?_modify, isBlock, if_true, Option.map_some,
      Option.some.injEq] at there
    subst there
    exact ⟨k, isBlock, rfl, .inr ⟨rfl, rfl, rfl⟩⟩
  · have apart : b.raw ≠ b'.raw := by
      intro eq
      exact same (by cases b; cases b'; simpa using eq.symm)
    simp only [Array.getElem?_modify, apart, if_false] at there
    exact ⟨k', there, rfl, .inl rfl⟩

theorem definesAt_older {i : Nat} (isBlock : d.blocks[b.raw]? = some k)
    (defines : DefinesAt d.blocks b'.raw i v) :
    DefinesAt (d.blocks.modify b.raw fun k => { k with insts := k.insts.push inst }) b'.raw i v :=
  (definesAt_push inst isBlock).mpr (.inl defines)

theorem holds_older (isBlock : d.blocks[b.raw]? = some k) (holds : g.Holds d.blocks b' v) :
    g.Holds (d.blocks.modify b.raw fun k => { k with insts := k.insts.push inst }) b' v :=
  holds.imp_right fun ⟨i, defines⟩ => ⟨i, definesAt_older isBlock defines⟩

theorem Fits.range_push (h : d.Fits g) (isBlock : d.blocks[b.raw]? = some k)
    (new : inst.defined? = none ∧ notes.size = 0 ∨
      inst.defined? = some ⟨d.values.size⟩ ∧ notes.size = 1) {b' i : Nat}
    (defines : DefinesAt (d.blocks.modify b.raw fun k => { k with insts := k.insts.push inst })
      b' i v) :
    g.params ≤ v.raw ∧ v.raw < (d.values ++ notes).size := by
  simp only [Array.size_append]
  rcases (definesAt_push inst isBlock).mp defines with old | ⟨_, _, isNew⟩
  · have := h.range b' i v old
    omega
  · rcases new with ⟨nothing, _⟩ | ⟨isValue, _⟩
    · simp [nothing] at isNew
    · have := h.room
      rw [isNew] at isValue
      cases isValue
      exact ⟨this, by simp; omega⟩

/-- The new value is defined at the end of the block only, an older one where it was. -/
theorem Fits.once_push (h : d.Fits g) (isBlock : d.blocks[b.raw]? = some k)
    (new : inst.defined? = none ∧ notes.size = 0 ∨
      inst.defined? = some ⟨d.values.size⟩ ∧ notes.size = 1)
    (low : g.params ≤ v.raw) (high : v.raw < (d.values ++ notes).size) :
    ∃! place : Nat × Nat, DefinesAt
      (d.blocks.modify b.raw fun k => { k with insts := k.insts.push inst })
      place.1 place.2 v := by
  simp only [Array.size_append] at high
  by_cases old : v.raw < d.values.size
  · obtain ⟨place, at_, only⟩ := h.once v low old
    refine ⟨place, (definesAt_push inst isBlock).mpr (.inl at_), fun place' at' => ?_⟩
    rcases (definesAt_push inst isBlock).mp at' with isOld | ⟨_, _, isNew⟩
    · exact only place' isOld
    · rcases new with ⟨nothing, _⟩ | ⟨isValue, _⟩
      · simp [nothing] at isNew
      · rw [isNew] at isValue
        cases isValue
        simp at old
  · rcases new with ⟨_, none⟩ | ⟨isValue, one⟩
    · omega
    · have isLast : v = ⟨d.values.size⟩ := by
        cases v
        simp at high old ⊢
        omega
      subst isLast
      refine ⟨(b.raw, k.insts.size), (definesAt_push inst isBlock).mpr
        (.inr ⟨rfl, rfl, isValue⟩), ?_⟩
      rintro ⟨b', i⟩ at'
      rcases (definesAt_push inst isBlock).mp at' with isOld | ⟨rfl, rfl, _⟩
      · have := (h.range _ _ _ isOld).2
        simp at this
      · rfl

/-- What an instruction uses stands before it, also where the instruction is the new one. -/
theorem Fits.insts_push (h : d.Fits g) (here : d.Open b) (isBlock : d.blocks[b.raw]? = some k)
    (uses : ∀ v ∈ inst.operands, d.Has g v) {k' : Block} {i : Nat} {inst' : Inst}
    (there : (d.blocks.modify b.raw fun k => { k with insts := k.insts.push inst })[b'.raw]? =
      some k') (at_ : k'.insts[i]? = some inst') (used : v ∈ inst'.operands) :
    g.given b' v ∨ ∃ j < i, DefinesAt
      (d.blocks.modify b.raw fun k => { k with insts := k.insts.push inst }) b'.raw j v := by
  have old {k₀ : Block} (there₀ : d.blocks[b'.raw]? = some k₀) (at₀ : k₀.insts[i]? = some inst') :
      g.given b' v ∨ ∃ j < i, DefinesAt
        (d.blocks.modify b.raw fun k => { k with insts := k.insts.push inst }) b'.raw j v :=
    (h.insts b' k₀ i inst' there₀ at₀ v used).imp_right fun ⟨j, before, defines⟩ =>
      ⟨j, before, definesAt_older isBlock defines⟩
  obtain ⟨k₀, there₀, _, rfl | ⟨rfl, rfl, isPushed⟩⟩ := block_of_push isBlock there
  · exact old there₀ at_
  · rw [isPushed, Array.getElem?_push] at at_
    by_cases last : i = k₀.insts.size
    · obtain rfl : inst = inst' := by simpa [last] using at_
      exact (here.has_iff.mp (uses v used)).imp_right fun ⟨j, defines⟩ =>
        ⟨j, last ▸ defines.lt isBlock, definesAt_older isBlock defines⟩
    · exact old there₀ (by simpa [last] using at_)

/-- An instruction that defines a new value, or none, at the end of the open block. -/
theorem Fits.emit (h : d.Fits g) (here : d.Open b) (inst : Inst) (notes : Array ValueNote)
    (uses : ∀ v ∈ inst.operands, d.Has g v)
    (new : inst.defined? = none ∧ notes.size = 0 ∨
      inst.defined? = some ⟨d.values.size⟩ ∧ notes.size = 1) :
    Fits { d with values := d.values ++ notes
                  blocks := d.blocks.modify b.raw fun k => { k with insts := k.insts.push inst } }
      g := by
  obtain ⟨k, isBlock, free⟩ := here.block
  constructor
  · simpa using h.entered
  · exact h.entry
  · have := h.room
    simp only [Array.size_append]
    omega
  · exact fun b' i v defines => h.range_push isBlock new defines
  · exact fun v low high => h.once_push isBlock new low high
  · exact fun b' k' i inst' there at_ v used => h.insts_push here isBlock uses there at_ used
  · intro b' k' e there isExit v used
    obtain ⟨k₀, there₀, sameExit, _⟩ := block_of_push isBlock there
    exact holds_older isBlock (h.operands b' k₀ e there₀ (sameExit ▸ isExit) v used)
  · intro b' k' e there isExit t leads
    obtain ⟨k₀, there₀, sameExit, _⟩ := block_of_push isBlock there
    obtain ⟨inside, given⟩ := h.targets b' k₀ e there₀ (sameExit ▸ isExit) t leads
    exact ⟨by simpa using inside, fun v promised => holds_older isBlock (given v promised)⟩
  · intro b' k' there isOpen
    obtain ⟨k₀, there₀, sameExit, _⟩ := block_of_push isBlock there
    exact h.open_ b' k₀ there₀ (sameExit ▸ isOpen)
  · intro b' current
    simpa using h.here b' current
  · intro b' waits
    obtain ⟨elsewhere, name, there⟩ := h.pending b' waits
    refine ⟨elsewhere, name, ?_⟩
    have apart : b.raw ≠ b'.raw := by
      intro eq
      exact elsewhere (by rw [here.here]; cases b; cases b'; simpa using eq)
    simpa [Array.getElem?_modify, apart] using there

end Emit

/-- The open block is left for blocks whose promises are kept. -/
theorem Fits.close (h : d.Fits g) (here : d.Open b) (e : Exit) (uses : ∀ v ∈ e.operands, d.Has g v)
    (leads : ∀ t ∈ e.targets, t.raw < d.blocks.size ∧ ∀ v, g.given t v → d.Has g v) :
    Fits { d with blocks := d.blocks.modify b.raw fun k => { k with exit := some e } } g := by
  obtain ⟨k, isBlock, free⟩ := here.block
  have holds {b' : BlockId} {v : ValueId} (there : g.Holds d.blocks b' v) :
      g.Holds (d.blocks.modify b.raw fun k => { k with exit := some e }) b' v :=
    there.imp_right fun ⟨i, defines⟩ => ⟨i, (definesAt_exit e).mpr defines⟩
  have was {b' : BlockId} {k' : Block}
      (there : (d.blocks.modify b.raw fun k => { k with exit := some e })[b'.raw]? = some k') :
      b' = b ∧ k' = { k with exit := some e } ∨ d.blocks[b'.raw]? = some k' ∧ b' ≠ b := by
    by_cases same : b' = b
    · subst same
      left
      simpa [Array.getElem?_modify, isBlock] using there.symm
    · right
      have apart : b.raw ≠ b'.raw := by
        intro eq
        exact same (by cases b; cases b'; simpa using eq.symm)
      simp only [Array.getElem?_modify, apart, if_false] at there
      exact ⟨there, same⟩
  constructor
  · simpa using h.entered
  · exact h.entry
  · exact h.room
  · intro b' i v defines
    exact h.range b' i v ((definesAt_exit e).mp defines)
  · intro v low high
    simpa only [definesAt_exit] using h.once v low high
  · intro b' k' i inst there at_ v used
    simp only [definesAt_exit]
    rcases was there with ⟨rfl, rfl⟩ | ⟨there, _⟩
    · exact h.insts b' k i inst isBlock at_ v used
    · exact h.insts b' k' i inst there at_ v used
  · intro b' k' e' there isExit v used
    rcases was there with ⟨rfl, rfl⟩ | ⟨there, _⟩
    · cases isExit
      exact holds (here.has_iff.mp (uses v used))
    · exact holds (h.operands b' k' e' there isExit v used)
  · intro b' k' e' there isExit t isTarget
    rcases was there with ⟨rfl, rfl⟩ | ⟨there, _⟩
    · cases isExit
      obtain ⟨inside, given⟩ := leads t isTarget
      exact ⟨by simpa using inside, fun v promised => holds (here.has_iff.mp (given v promised))⟩
    · obtain ⟨inside, given⟩ := h.targets b' k' e' there isExit t isTarget
      exact ⟨by simpa using inside, fun v promised => holds (given v promised)⟩
  · intro b' k' there isOpen
    rcases was there with ⟨rfl, rfl⟩ | ⟨there, _⟩
    · cases isOpen
    · exact h.open_ b' k' there isOpen
  · intro b' current
    simpa using h.here b' current
  · intro b' waits
    obtain ⟨elsewhere, name, there⟩ := h.pending b' waits
    refine ⟨elsewhere, name, ?_⟩
    have apart : b.raw ≠ b'.raw := by
      intro eq
      exact elsewhere (by rw [here.here]; cases b; cases b'; simpa using eq)
    simpa [Array.getElem?_modify, apart] using there

/-- A new block, with any promise: nothing leads to it yet. -/
theorem Fits.block (h : d.Fits g) (name : String) (has : ValueId → Prop) :
    Fits { d with blocks := d.blocks.push ⟨name, #[], none⟩ }
    (g.withBlock ⟨d.blocks.size⟩ has) := by
  have notNew {b : Nat} (inside : b < d.blocks.size) : (⟨b⟩ : BlockId) ≠ ⟨d.blocks.size⟩ := by
    intro eq
    cases eq
    exact Nat.lt_irrefl _ inside
  have given {b : BlockId} (inside : b.raw < d.blocks.size) (v : ValueId) :
      (g.withBlock ⟨d.blocks.size⟩ has).given b v ↔ g.given b v := by
    simp [Sketch.withBlock, notNew inside]
  have inside {b : Nat} {k : Block} (there : d.blocks[b]? = some k) : b < d.blocks.size :=
    (Array.getElem?_eq_some_iff.mp there).1
  have holds {b : BlockId} (at_ : b.raw < d.blocks.size) {v : ValueId}
    (there : g.Holds d.blocks b v) :
      (g.withBlock ⟨d.blocks.size⟩ has).Holds (d.blocks.push ⟨name, #[], none⟩) b v :=
    there.imp (given at_ v).mpr fun ⟨i, defines⟩ => ⟨i, (definesAt_block name).mpr defines⟩
  have was {b : Nat} {k : Block} (there : (d.blocks.push ⟨name, #[], none⟩)[b]? = some k) :
      b = d.blocks.size ∧ k = ⟨name, #[], none⟩ ∨ d.blocks[b]? = some k :=
    of_getElem?_push there
  constructor
  · simp
  · intro v promised
    exact h.entry v ((given h.entered v).mp promised)
  · exact h.room
  · intro b i v defines
    exact h.range b i v ((definesAt_block name).mp defines)
  · intro v low high
    simpa only [definesAt_block] using h.once v low high
  · intro b k i inst there at_ v used
    rcases was there with ⟨_, rfl⟩ | there
    · simp at at_
    · simp only [definesAt_block, given (inside there)]
      exact h.insts b k i inst there at_ v used
  · intro b k e there isExit v used
    rcases was there with ⟨_, rfl⟩ | there
    · cases isExit
    · exact holds (inside there) (h.operands b k e there isExit v used)
  · intro b k e there isExit t leads
    rcases was there with ⟨_, rfl⟩ | there
    · cases isExit
    · obtain ⟨isBlock, keeps⟩ := h.targets b k e there isExit t leads
      simp only [Array.size_push]
      exact ⟨by omega, fun v promised =>
        holds (inside there) (keeps v ((given isBlock v).mp promised))⟩
  · intro b k there isOpen
    rcases was there with ⟨isNew, _⟩ | there
    · exact .inl (.inr (by cases b; cases isNew; rfl))
    · exact (h.open_ b k there isOpen).imp_left .inl
  · intro b current
    have := h.here b current
    simp only [Array.size_push]
    omega
  · rintro b (waits | rfl)
    · obtain ⟨elsewhere, name', there⟩ := h.pending b waits
      exact ⟨elsewhere, name', getElem?_push_of_some there⟩
    · refine ⟨fun current => ?_, name, by simp⟩
      exact Nat.lt_irrefl _ (h.here _ current)

/-- A block was opened with a promise. -/
structure Opened (d : Draft) (g : Sketch) (b : BlockId) (has : ValueId → Prop) (d' : Draft)
    (g' : Sketch) : Prop where
  grown : d.Grown g d' g'
  fits : d'.Fits g'
  place : ∀ b', d.Open b' → d'.Open b'
  keeps : ∀ v, d.Has g v → d'.Has g' v
  inside : b.raw < d'.blocks.size
  given : ∀ v, g'.given b v ↔ has v
  pending : ∀ b', g'.pending b' ↔ g.pending b' ∨ b' = b
  calls : ∀ f n, d'.Calls f n → d.Calls f n

theorem Fits.opened (h : d.Fits g) (name : String) (has : ValueId → Prop) :
    d.Opened g ⟨d.blocks.size⟩ has ((Draft.block name).run d).2
      (g.withBlock ⟨d.blocks.size⟩ has) := by
  have notNew {b : BlockId} (inside : b.raw < d.blocks.size) : b ≠ ⟨d.blocks.size⟩ := by
    rintro rfl
    exact Nat.lt_irrefl _ inside
  have place (b : BlockId) (here : d.Open b) : ((Draft.block name).run d).2.Open b := by
    obtain ⟨k, there, free⟩ := here.block
    exact ⟨here.here, k, getElem?_push_of_some there, free⟩
  constructor
  · refine ⟨rfl, fun b inside => ?_, ?_⟩
    · funext v
      simp [Sketch.withBlock, notNew inside]
    · change d.blocks.size ≤ (d.blocks.push _).size
      simp
  · exact h.block name _
  · exact place
  · rintro v ⟨b, here, holds⟩
    refine ⟨b, place b here, ?_⟩
    rcases holds with given | ⟨i, defines⟩
    · left
      simpa [Sketch.withBlock, notNew (h.here b here.here)] using given
    · exact .inr ⟨i, (definesAt_block name).mpr defines⟩
  · change d.blocks.size < (d.blocks.push _).size
    simp
  · intro v
    simp [Sketch.withBlock]
  · exact fun b => Iff.rfl
  · exact fun f n calls => CallsIn.of_block calls

/-- A block that waits is entered when the one before is left. -/
theorem Fits.enter (h : d.Fits g) (closed : d.isClosed = true) (waits : g.pending b) :
    Fits { d with current := some b } (g.without b) := by
  refine ⟨h.entered, h.entry, h.room, h.range, h.once, h.insts, h.operands, h.targets, ?_, ?_, ?_⟩
  · intro b' k there isOpen
    by_cases same : b' = b
    · exact .inr (congrArg some same.symm)
    · rcases h.open_ b' k there isOpen with waits' | current
      · exact .inl ⟨waits', same⟩
      · simp [isClosed, current, there, isOpen] at closed
  · rintro b' current
    obtain rfl : b = b' := by simpa using current
    obtain ⟨_, name, there⟩ := h.pending b waits
    exact (Array.getElem?_eq_some_iff.mp there).1
  · rintro b' ⟨waits', apart⟩
    refine ⟨fun current => apart ?_, (h.pending b' waits').2⟩
    simpa using current.symm

theorem Fits.enter_open (h : d.Fits g) (waits : g.pending b) :
    Open { d with current := some b } b := by
  obtain ⟨_, name, there⟩ := h.pending b waits
  exact ⟨rfl, _, there, rfl⟩

/-- What a block that is entered has is what was promised of it. -/
theorem Fits.has_enter (h : d.Fits g) (waits : g.pending b) :
    Has { d with current := some b } (g.without b) v ↔ g.given b v := by
  rw [(h.enter_open waits).has_iff]
  obtain ⟨_, name, there⟩ := h.pending b waits
  constructor
  · rintro (given | ⟨i, k, inst, here, at_, _⟩)
    · exact given
    · obtain rfl : k = ⟨name, #[], none⟩ := by simpa [there] using here.symm
      simp at at_
  · exact fun given => .inl given

/-- The draft goes on from another, and what was there is there. -/
structure Becomes (d : Draft) (g : Sketch) (d' : Draft) (g' : Sketch) : Prop where
  grown : d.Grown g d' g'
  pending : g'.pending = g.pending
  fits : d'.Fits g'
  isOpen : d'.IsOpen
  keeps : ∀ v, d.Has g v → d'.Has g' v

theorem Becomes.refl (fits : d.Fits g) (isOpen : d.IsOpen) : d.Becomes g d g :=
  ⟨.refl d g, rfl, fits, isOpen, fun _ has => has⟩

theorem Becomes.trans (h : d.Becomes g d' g') (h' : d'.Becomes g' d'' g'') :
    d.Becomes g d'' g'' :=
  ⟨h.grown.trans h'.grown, h'.pending.trans h.pending, h'.fits, h'.isOpen,
    fun v has => h'.keeps v (h.keeps v has)⟩

/-- Values that were just given are there, and so are those that were used before. -/
theorem Becomes.uses (h : d.Becomes g d' g') {vs : List ValueId} {U : ValueId → Prop}
    (given : ∀ v ∈ vs, d'.Has g' v) (used : ∀ v, U v → d.Has g v) (v : ValueId) :
    v ∈ vs ∨ U v → d'.Has g' v := by
  rintro (isGiven | isUsed)
  · exact given v isGiven
  · exact h.keeps v (used v isUsed)

/-- One more instruction. -/
theorem Fits.becomes_emit (h : d.Fits g) (here : d.Open b) (inst : Inst) (notes : Array ValueNote)
    (uses : ∀ v ∈ inst.operands, d.Has g v)
    (new : inst.defined? = none ∧ notes.size = 0 ∨
      inst.defined? = some ⟨d.values.size⟩ ∧ notes.size = 1) :
    d.Becomes g { d with values := d.values ++ notes
                         blocks := d.blocks.modify b.raw fun k =>
                          { k with insts := k.insts.push inst } } g := by
  obtain ⟨k, there, free⟩ := here.block
  have open' : Open { d with values := d.values ++ notes
                             blocks := d.blocks.modify b.raw fun k =>
                              { k with insts := k.insts.push inst } } b :=
    ⟨here.here, { k with insts := k.insts.push inst }, by simp [Array.getElem?_modify, there], free⟩
  refine ⟨⟨rfl, fun _ _ => rfl, by simp⟩, rfl, h.emit here inst notes uses new, ⟨b, open'⟩, ?_⟩
  intro v has
  rcases here.has_iff.mp has with given | ⟨i, defines⟩
  · exact ⟨b, open', .inl given⟩
  · exact ⟨b, open', .inr ⟨i, (definesAt_push inst there).mpr (.inl defines)⟩⟩

end Draft

/-- Where the draft keeps its promises and the values that are used are there, the step goes on and
what it gives is there; it adds only such calls. -/
def Writing.Sound {α : Type} (uses : ValueId → Prop) (m : Writing α) (gives : α → List ValueId)
    (calls : FuncId → Nat → Prop) : Prop :=
  ∀ (d : Draft) (g : Sketch), d.Fits g → d.IsOpen → (∀ v, uses v → d.Has g v) →
    ∃ g', d.Becomes g (m.run d).2 g' ∧ (∀ v ∈ gives (m.run d).1, (m.run d).2.Has g' v) ∧
      ∀ f n, (m.run d).2.Calls f n → d.Calls f n ∨ calls f n

namespace Writing.Sound

open Draft

variable {α β : Type} {U : ValueId → Prop} {C : FuncId → Nat → Prop}

theorem pure {a : α} {gives : α → List ValueId} (h : ∀ v ∈ gives a, U v) :
    Sound U (Pure.pure a) gives C := by
  intro d g fits isOpen uses
  exact ⟨g, .refl fits isOpen, fun v given => uses v (h v given), fun _ _ calls => .inl calls⟩

theorem bind {m : Writing α} {k : α → Writing β} {gives : α → List ValueId}
    {gives' : β → List ValueId} (first : Sound U m gives C)
    (rest : ∀ a, Sound (fun v => v ∈ gives a ∨ U v) (k a) gives' C) :
    Sound U (m >>= k) gives' C := by
  intro d g fits isOpen uses
  obtain ⟨g', goes, given, calls⟩ := first d g fits isOpen uses
  obtain ⟨g'', goes', given', calls'⟩ := rest _ _ g' goes.fits goes.isOpen (goes.uses given uses)
  refine ⟨g'', goes.trans goes', given', fun f n call => ?_⟩
  rcases calls' f n call with old | new
  · exact calls f n old
  · exact .inr new

/-- The draft after an instruction that defines nothing. -/
theorem run_emit {d : Draft} {b : BlockId} (here : d.Open b) (inst : Inst) :
    ((Draft.emit inst).run d).2 =
      { d with values := d.values ++ #[]
               blocks := d.blocks.modify b.raw fun k =>
                   { k with insts := k.insts.push inst } } := by
  rw [here.emit, Array.append_empty]

/-- An instruction that defines nothing. -/
theorem emit {inst : Inst} (nothing : inst.defined? = none) (h : ∀ v ∈ inst.operands, U v)
    (call : ∀ f n, inst.callee? = some (f, n) → C f n) :
    Sound U (Draft.emit inst) (fun _ => []) C := by
  rintro d g fits ⟨b, here⟩ uses
  have goes := fits.becomes_emit here inst #[] (fun v used => uses v (h v used))
    (.inl ⟨nothing, rfl⟩)
  rw [run_emit here]
  exact ⟨g, goes, by simp, fun f n calls => (CallsIn.of_push calls).imp_right (call f n)⟩

/-- The draft after an instruction that defines a value. -/
theorem run_define {d : Draft} {b : BlockId} (here : d.Open b) (ty : TyId) (name : String)
    (inst : Inst) :
    ((Draft.emit inst).run ((newValue ty name).run d).2).2 =
      { d with values := d.values ++ #[⟨ty, name⟩]
               blocks := d.blocks.modify b.raw fun k =>
                   { k with insts := k.insts.push inst } } := by
  have here' : ((newValue ty name).run d).2.Open b := ⟨here.here, here.block⟩
  rw [here'.emit]
  rfl

theorem define {d : Draft} {g : Sketch} (ty : TyId) (name : String) {inst : Inst}
    (fits : d.Fits g) (isOpen : d.IsOpen) (defines : inst.defined? = some ⟨d.values.size⟩)
    (uses : ∀ v ∈ inst.operands, d.Has g v) (call : ∀ f n, inst.callee? = some (f, n) → C f n) :
    d.Becomes g ((Draft.emit inst).run ((newValue ty name).run d).2).2 g ∧
      ((Draft.emit inst).run ((newValue ty name).run d).2).2.Has g ⟨d.values.size⟩ ∧
      ∀ f n, ((Draft.emit inst).run ((newValue ty name).run d).2).2.Calls f n →
        d.Calls f n ∨ C f n := by
  obtain ⟨b, here⟩ := isOpen
  have goes := fits.becomes_emit here inst #[⟨ty, name⟩] uses (.inr ⟨defines, rfl⟩)
  rw [run_define here]
  refine ⟨goes, ?_, fun f n calls => (CallsIn.of_push calls).imp_right (call f n)⟩
  obtain ⟨k, there, free⟩ := here.block
  refine ⟨b, ⟨here.here, { k with insts := k.insts.push inst }, ?_, free⟩, .inr ⟨k.insts.size, ?_⟩⟩
  · simp [Array.getElem?_modify, there]
  · exact (definesAt_push inst there).mpr (.inr ⟨rfl, rfl, defines⟩)

theorem defineBy {ty : TyId} {name : String} {inst : ValueId → Inst}
    (defines : ∀ v, (inst v).defined? = some v) (h : ∀ dst, ∀ v ∈ (inst dst).operands, U v)
    (noCall : ∀ dst, (inst dst).callee? = none) :
    Sound U (Draft.defineBy ty name inst) (fun v => [v]) C := by
  intro d g fits isOpen uses
  obtain ⟨goes, has, calls⟩ := define (C := C) ty name fits isOpen (defines ⟨d.values.size⟩)
    (fun v used => uses v (h _ v used)) (by simp [noCall])
  refine ⟨g, goes, fun v given => ?_, calls⟩
  cases List.mem_singleton.mp given
  exact has

theorem callBy {ret : TyId} {name : String} {inst : Option ValueId → Inst}
    (defines : ∀ dst, (inst dst).defined? = dst) (h : ∀ dst, ∀ v ∈ (inst dst).operands, U v)
    (call : ∀ dst f n, (inst dst).callee? = some (f, n) → C f n) :
    Sound U (Draft.callBy ret name inst) Option.toList C := by
  unfold Draft.callBy
  split
  · exact (emit (defines none) (h none) (call none)).bind fun _ => pure (by simp)
  · intro d g fits isOpen uses
    obtain ⟨goes, has, calls⟩ := define ret name fits isOpen (defines (some ⟨d.values.size⟩))
      (fun v used => uses v (h _ v used)) (call _)
    refine ⟨g, goes, fun v given => ?_, calls⟩
    cases Option.mem_toList.mp given
    exact has

theorem plain (value : Const) : Sound U (Draft.plain value) (fun v => [v]) C :=
  defineBy (fun _ => rfl) (by simp [Inst.operands]) fun _ => rfl

theorem alloc (ty : TyId) (name : String) : Sound U (Draft.alloc ty name) (fun v => [v]) C :=
  defineBy (fun _ => rfl) (by simp [Inst.operands]) fun _ => rfl

theorem load {ptr : ValueId} (ty : TyId) (name : String) (h : U ptr) :
    Sound U (Draft.load ty ptr name) (fun v => [v]) C :=
  defineBy (fun _ => rfl) (by simp [Inst.operands, h]) fun _ => rfl

theorem store {value ptr : ValueId} (h : U value) (h' : U ptr) :
    Sound U (Draft.store value ptr) (fun _ => []) C :=
  emit rfl (by simp [Inst.operands, h, h']) (by simp [Inst.callee?])

theorem fieldAddr {ptr : ValueId} (ty : TyId) (index : Nat) (name : String) (h : U ptr) :
    Sound U (Draft.fieldAddr ty ptr index name) (fun v => [v]) C :=
  defineBy (fun _ => rfl) (by simp [Inst.operands, h]) fun _ => rfl

theorem elemAddr {ptr index : ValueId} (elem : TyId) (name : String) (h : U ptr) (h' : U index) :
    Sound U (Draft.elemAddr elem ptr index name) (fun v => [v]) C :=
  defineBy (fun _ => rfl) (by simp [Inst.operands, h, h']) fun _ => rfl

theorem binary {lhs rhs : ValueId} (op : BinaryOp) (name : String) (h : U lhs) (h' : U rhs) :
    Sound U (Draft.binary op lhs rhs name) (fun v => [v]) C := by
  intro d g fits isOpen uses
  have sound : Sound U (Draft.defineBy (resultType (d.valueType lhs) op) name
    (.binary · op lhs rhs))
      (fun v => [v]) C := defineBy (fun _ => rfl) (by simp [Inst.operands, h, h']) fun _ => rfl
  exact sound d g fits isOpen uses

theorem compare {lhs rhs : ValueId} (pred : Predicate) (name : String) (h : U lhs) (h' : U rhs) :
    Sound U (Draft.compare pred lhs rhs name) (fun v => [v]) C :=
  defineBy (fun _ => rfl) (by simp [Inst.operands, h, h']) fun _ => rfl

theorem not {value : ValueId} (name : String) (h : U value) :
    Sound U (Draft.not value name) (fun v => [v]) C :=
  defineBy (fun _ => rfl) (by simp [Inst.operands, h]) fun _ => rfl

theorem fneg {value : ValueId} (name : String) (h : U value) :
    Sound U (Draft.fneg value name) (fun v => [v]) C :=
  defineBy (fun _ => rfl) (by simp [Inst.operands, h]) fun _ => rfl

theorem bitcast {value : ValueId} (ty : TyId) (name : String) (h : U value) :
    Sound U (Draft.bitcast value ty name) (fun v => [v]) C :=
  defineBy (fun _ => rfl) (by simp [Inst.operands, h]) fun _ => rfl

/-- The only step that adds a call. -/
theorem call {args : List ValueId} (func : FuncId) (ret : TyId) (name : String)
    (h : ∀ v ∈ args, U v) (allowed : C func args.length) :
    Sound U (Draft.call func ret args name) Option.toList C := by
  refine callBy (fun _ => rfl) (fun _ => h) fun dst f n isCall => ?_
  cases isCall
  exact allowed

theorem callIndirect {callee : ValueId} {args : List ValueId} (sig ret : TyId) (name : String)
    (h : U callee) (h' : ∀ v ∈ args, U v) :
    Sound U (Draft.callIndirect sig ret callee args name) Option.toList C := by
  refine callBy (fun _ => rfl) (fun _ v used => ?_) (by simp [Inst.callee?])
  rcases List.mem_cons.mp used with rfl | isArg
  · exact h
  · exact h' v isArg

theorem mono {V : ValueId → Prop} {m : Writing α} {gives : α → List ValueId} (h : Sound U m gives C)
    (more : ∀ v, U v → V v) : Sound V m gives C :=
  fun d g fits isOpen uses => h d g fits isOpen fun v used => uses v (more v used)

theorem forM {k : α → Writing PUnit} (as : List α)
    (each : ∀ a ∈ as, Sound U (k a) (fun _ => []) C) : Sound U (as.forM k) (fun _ => []) C := by
  induction as with
  | nil => exact pure (by simp)
  | cons a as ih =>
    apply bind (each a (by simp))
    intro _
    exact (ih fun b inside => each b (by simp [inside])).mono fun _ used => .inr used

end Writing.Sound

end Code

end ShapeCompiler
