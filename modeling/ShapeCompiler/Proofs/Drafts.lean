import ShapeCompiler.Proofs.Bodies

/-!
# Drafts only grow

* `Draft.Extends`: values and instructions stay where they are, and a block that is left stays as it
  is;
* `Writing.Grows` and `Emit.Grows`: a step extends the draft.
-/

namespace ShapeCompiler

open Source Code Work

namespace Code

/-- More may be written to a block that has no exit. -/
structure Block.Extends (k k' : Block) : Prop where
  insts : ∃ more, k'.insts = k.insts ++ more
  left : k.exit.isSome → k' = k

theorem Block.Extends.refl (k : Block) : k.Extends k := ⟨⟨#[], by simp⟩, fun _ => rfl⟩

theorem Block.Extends.trans {k k' k'' : Block} (h : k.Extends k') (h' : k'.Extends k'') :
    k.Extends k'' := by
  obtain ⟨more, isMore⟩ := h.insts
  obtain ⟨more', isMore'⟩ := h'.insts
  refine ⟨⟨more ++ more', by rw [isMore', isMore, Array.append_assoc]⟩, fun left => ?_⟩
  obtain rfl := h.left left
  exact h'.left left

/-- The second draft comes from the first by writing. -/
structure Draft.Extends (d d' : Draft) : Prop where
  values : ∃ notes, d'.values = d.values ++ notes
  blocks : ∀ (b : Nat) (k : Block), d.blocks[b]? = some k → ∃ k', d'.blocks[b]? =
    some k' ∧ k.Extends k'

namespace Draft.Extends

variable {d d' d'' : Draft}

theorem refl (d : Draft) : d.Extends d := ⟨⟨#[], by simp⟩, fun _ k there => ⟨k, there, .refl k⟩⟩

theorem trans (h : d.Extends d') (h' : d'.Extends d'') : d.Extends d'' := by
  obtain ⟨notes, isNotes⟩ := h.values
  obtain ⟨notes', isNotes'⟩ := h'.values
  refine ⟨⟨notes ++ notes', by rw [isNotes', isNotes, Array.append_assoc]⟩, fun b k there => ?_⟩
  obtain ⟨k', there', more⟩ := h.blocks b k there
  obtain ⟨k'', there'', more'⟩ := h'.blocks b k' there'
  exact ⟨k'', there'', more.trans more'⟩

theorem size_le (h : d.Extends d') : d.values.size ≤ d'.values.size := by
  obtain ⟨notes, isNotes⟩ := h.values
  simp [isNotes]

/-- A change of one block that is open. -/
theorem of_modify {b : Nat} {change : Block → Block} (d : Draft)
    (more : ∀ k, d.blocks[b]? = some k → k.Extends (change k)) :
    d.Extends { d with blocks := d.blocks.modify b change } := by
  refine ⟨⟨#[], by simp⟩, fun b' k there => ?_⟩
  simp only [Array.getElem?_modify]
  split
  · rename_i same
    subst same
    exact ⟨change k, by simp [there], more k there⟩
  · exact ⟨k, there, .refl k⟩

theorem of_values (d : Draft) (notes : Array ValueNote) (current : Option BlockId) :
    d.Extends { d with values := d.values ++ notes, current } :=
  ⟨⟨notes, rfl⟩, fun _ k there => ⟨k, there, .refl k⟩⟩

theorem of_push (d : Draft) (k : Block) (current : Option BlockId) :
    d.Extends { d with blocks := d.blocks.push k, current } :=
  ⟨⟨#[], by simp⟩, fun _ k' there => ⟨k', getElem?_push_of_some there, .refl k'⟩⟩

theorem blocks_size_le {d d' : Draft} (h : d.Extends d') : d.blocks.size ≤ d'.blocks.size := by
  apply Nat.le_of_not_lt
  intro fewer
  obtain ⟨k, there, _⟩ := h.blocks d'.blocks.size _ (Array.getElem?_eq_getElem fewer)
  exact Nat.lt_irrefl _ (Array.getElem?_eq_some_iff.mp there).1

end Draft.Extends

/-- The step extends every draft. -/
structure Writing.Grows {α : Type} (m : Writing α) : Prop where
  extend : ∀ d : Draft, d.Extends (m.run d).2

namespace Writing.Grows

variable {α β : Type}

theorem pure (a : α) : Grows (Pure.pure a : Writing α) := ⟨fun d => .refl d⟩

theorem bind {m : Writing α} {k : α → Writing β} (first : Grows m) (rest : ∀ a, Grows (k a)) :
    Grows (m >>= k) :=
  ⟨fun d => (first.extend d).trans ((rest _).extend _)⟩

theorem newValue (ty : TyId) (name : String) : Grows (Draft.newValue ty name) :=
  ⟨fun d => .of_values d #[⟨ty, name⟩] _⟩

theorem block (name : String) : Grows (Draft.block name) := ⟨fun d => .of_push d _ d.current⟩

theorem moveTo (b : BlockId) : Grows (Draft.moveTo b) := by
  refine ⟨fun d => ?_⟩
  have more := Draft.Extends.of_values d #[] (some b)
  rwa [Array.append_empty] at more

/-- Instructions go to a block that has no exit. -/
theorem openBlock_spec (d : Draft) : d.Extends (Draft.openBlock.run d).2 ∧
    ∀ k, (Draft.openBlock.run d).2.blocks[(Draft.openBlock.run d).1.raw]? = some k →
      k.exit = none := by
  unfold Draft.openBlock
  simp only [StateT.run_bind, StateT.run_get, pure_bind]
  split
  · rename_i b isCurrent isOpen
    refine ⟨.refl d, fun k there => ?_⟩
    replace there : d.blocks[b.raw]? = some k := there
    simpa [Draft.isClosed, isCurrent, there] using isOpen
  · refine ⟨.of_push d _ _, fun k there => ?_⟩
    replace there : (d.blocks.push ⟨"dead", #[], none⟩)[d.blocks.size]? = some k := there
    simp only [Array.getElem?_push_size, Option.some.injEq] at there
    subst there
    rfl

theorem emit (inst : Inst) : Grows (Draft.emit inst) := by
  refine ⟨fun d => ?_⟩
  obtain ⟨more, isOpen⟩ := openBlock_spec d
  refine more.trans (.of_modify _ fun k there => ⟨⟨#[inst], by simp⟩, fun left => ?_⟩)
  simp [isOpen k there] at left

theorem close (exit : Exit) : Grows (Draft.close exit) := by
  refine ⟨fun d => ?_⟩
  obtain ⟨more, isOpen⟩ := openBlock_spec d
  refine more.trans (.of_modify _ fun k there => ⟨⟨#[], by simp⟩, fun left => ?_⟩)
  simp [isOpen k there] at left

theorem defineBy (ty : TyId) (name : String) (inst : ValueId → Inst) :
    Grows (Draft.defineBy ty name inst) :=
  bind (newValue _ _) fun _ => bind (emit _) fun _ => pure _

end Writing.Grows

end Code

/-- Where the step succeeds, it extends the draft. -/
structure Emit.Grows {α : Type} (m : Emit α) : Prop where
  extend : ∀ {f f' : Frame} {s : Setup} {w w' : Work} {a : α}, m f s w = .ok (a, f') w' →
    f.draft.Extends f'.draft

namespace Emit.Grows

variable {α β : Type}

theorem pure (a : α) : Grows (Pure.pure a : Emit α) := by
  refine ⟨fun ran => ?_⟩
  cases ran
  exact .refl _

theorem bind {m : Emit α} {k : α → Emit β} (first : Grows m) (rest : ∀ a, Grows (k a)) :
    Grows (m >>= k) := by
  refine ⟨fun ran => ?_⟩
  obtain ⟨a, f₁, w₁, ran₁, ran₂⟩ := of_bind_ok ran
  exact (first.extend ran₁).trans ((rest a).extend ran₂)

theorem lift (c : Compile α) : Grows (liftM c : Emit α) := by
  refine ⟨fun ran => ?_⟩
  obtain ⟨rfl, -⟩ := of_lift_ok ran
  exact .refl _

theorem write {step : Writing α} (h : Writing.Grows step) : Grows (liftM step : Emit α) := by
  refine ⟨fun {f f' s w w' b} ran => ?_⟩
  cases ran
  exact h.extend f.draft

theorem get : Grows (MonadState.get : Emit Frame) := by
  refine ⟨fun ran => ?_⟩
  cases ran
  exact .refl _

theorem getWork : Grows (getThe Work : Emit Work) := by
  refine ⟨fun ran => ?_⟩
  cases ran
  exact .refl _

theorem forM {k : α → Emit PUnit} (each : ∀ a, Grows (k a)) (as : List α) : Grows (as.forM k) := by
  induction as with
  | nil => exact pure _
  | cons a as ih => exact bind (each a) fun _ => ih

theorem ite {c : Prop} [Decidable c] {m m' : Emit α} (h : Grows m) (h' : Grows m') :
    Grows (if c then m else m') := by
  split
  · exact h
  · exact h'

end Emit.Grows

end ShapeCompiler
