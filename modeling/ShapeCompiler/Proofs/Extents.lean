import ShapeCompiler.Compile.Dispatch
import ShapeCompiler.Proofs.Drafts

/-!
# How much is written

* `closureOf_grows`, `patchSlot_grows`: the steps that give an object its methods extend the draft;
* `Emit.Adds`: a step adds at least so many values to the draft;
* `placeTable_adds`: a table that an object gets of its own is copied entry by entry.
-/

namespace ShapeCompiler

open Source Code Work

namespace Emit

/-! ## Closures -/

theorem storeField_grows (record : TyId) (ptr : ValueId) (i : Nat) (value : ValueId) :
    Grows (storeField record ptr i value) :=
  .bind (.write (.defineBy _ _ _)) fun _ => .write (.emit _)

theorem loadField_grows (record : TyId) (ptr : ValueId) (i : Nat) (name : String) :
    Grows (loadField record ptr i name) :=
  .bind (.write (.defineBy _ _ _)) fun _ => .write (.defineBy _ _ _)

theorem elemAddr_grows (array : ValueId) (i : Nat) (name : String) :
    Grows (elemAddr array i name) :=
  .bind (.write (.defineBy _ _ _)) fun _ => .write (.defineBy _ _ _)

theorem lookup_grows (n : Name) : Grows (lookup n) :=
  .bind .get fun _ => .bind .getWork fun _ => .pure _

theorem slotMeaning_grows (slot : EnvSlot) (n : Name) : Grows (slotMeaning slot n) := by
  unfold slotMeaning
  split
  · exact .bind .get fun _ => .pure _
  · exact lookup_grows n

theorem fillByScope_grows (e : Environment) (ptr : ValueId) (slot : EnvSlot) (i : Nat) (n : Name) :
    Grows (fillByScope e ptr slot i n) := by
  refine .bind (slotMeaning_grows slot n) fun meaning => ?_
  split
  · exact storeField_grows _ _ _ _
  · exact .bind (.write (.defineBy _ _ _)) fun _ => storeField_grows _ _ _ _
  · exact .ite (.bind (.lift _) fun _ => .lift _) (.pure _)

theorem outerSource?_grows (e : Environment) (slot : EnvSlot) (i : Nat) :
    Grows (outerSource? e slot i) := by
  refine .bind .get fun f => ?_
  split
  · exact .pure _
  · exact .pure _

theorem fillCapture_grows (e : Environment) (ptr : ValueId) (slot : EnvSlot) (i : Nat) :
    Grows (fillCapture e ptr slot i) := by
  unfold fillCapture
  split
  · exact .pure _
  · exact .pure _
  · exact .pure _
  · refine .bind (outerSource?_grows e slot i) fun source => ?_
    split
    · exact .bind (.lift _) fun _ => .bind (.lift _) fun _ =>
          .bind (loadField_grows _ _ _ _) fun _ =>
        storeField_grows _ _ _ _
    · exact fillByScope_grows e ptr slot i _

theorem fillReceiver_grows (e : Environment) (ptr given : ValueId) :
    Grows (fillReceiver e ptr (some given)) := by
  unfold fillReceiver
  split
  · exact .pure _
  · exact .bind (.pure _) fun _ => storeField_grows _ _ _ _

theorem closureOf_grows (c : CompiledFunction) (d : DeclId) (given : ValueId) :
    Grows (closureOf c d (some given)) := by
  have captured : Grows (captureEnv c.env (some given)) :=
    .bind (.lift _) fun e => .bind (.write (.defineBy _ _ _)) fun ptr =>
      .bind (.forM (fun (slot, i) => fillCapture_grows e ptr slot i) _) fun _ =>
        .bind (fillReceiver_grows e ptr given) fun _ => .pure _
  exact .bind captured fun env => .bind (.lift _) fun rt => .bind (.lift _) fun _ =>
    .bind (.write (.defineBy _ _ _)) fun _ => .bind (.write (.defineBy _ _ _)) fun _ =>
      .bind (storeField_grows _ _ _ _) fun _ => .bind (storeField_grows _ _ _ _) fun _ => .pure _

theorem patchSlot_grows (l : Lowering) (cls : DeclId) (obj copy : ValueId) (n : Name) (m : DeclId)
    (slot closureSlot : Nat) : Grows (patchSlot l cls obj copy n m slot closureSlot) :=
  .bind (.lift _) fun c => .bind (closureOf_grows c m obj) fun _ => .bind (.lift _) fun _ =>
    .bind (elemAddr_grows _ _ _) fun _ => .bind (.write (.emit _)) fun _ =>
      .bind (elemAddr_grows _ _ _) fun _ => .bind (.write (.defineBy _ _ _)) fun _ =>
        .write (.emit _)

/-! ## Values -/

/-- Where the step succeeds, it adds at least so many values. -/
structure Adds {α : Type} (n : Nat) (m : Emit α) : Prop where
  add : ∀ {f f' : Frame} {s : Setup} {w w' : Work} {a : α}, m f s w = .ok (a, f') w' →
    f.draft.values.size + n ≤ f'.draft.values.size

namespace Adds

variable {α β : Type} {n k : Nat}

theorem of_grows {m : Emit α} (h : Grows m) : Adds 0 m := ⟨fun ran => (h.extend ran).size_le⟩

theorem mono {m : Emit α} (h : Adds n m) (le : k ≤ n) : Adds k m := by
  refine ⟨fun ran => ?_⟩
  have := h.add ran
  omega

theorem bind {m : Emit α} {step : α → Emit β} (first : Adds n m) (rest : ∀ a, Adds k (step a)) :
    Adds (n + k) (m >>= step) := by
  refine ⟨fun ran => ?_⟩
  obtain ⟨a, f₁, w₁, ran₁, ran₂⟩ := of_bind_ok ran
  have added₁ := first.add ran₁
  have added₂ := (rest a).add ran₂
  omega

theorem forM {step : α → Emit PUnit} (each : ∀ a, Adds n (step a)) (as : List α) :
    Adds (as.length * n) (as.forM step) := by
  induction as with
  | nil => exact (of_grows (.pure _)).mono (by simp)
  | cons a as ih => exact (bind (each a) fun _ => ih).mono (by rw [List.length_cons]; grind)

/-- An instruction that defines a value adds that value. -/
theorem defineBy (ty : TyId) (name : String) (inst : ValueId → Inst) :
    Adds 1 (liftM (Draft.defineBy ty name inst) : Emit ValueId) := by
  refine ⟨fun {f f' s w w' a} ran => ?_⟩
  cases ran
  have more := ((Writing.Grows.emit (inst ⟨f.draft.values.size⟩)).extend
    { f.draft with values := f.draft.values.push ⟨ty, name⟩ }).size_le
  rw [Array.size_push] at more
  exact more

end Adds

/-- A copy takes four values for each entry. -/
theorem copyTable_adds (table copy : ValueId) (length : Nat) :
    Adds (length * 4) (copyTable table copy length) := by
  have each : ∀ i, Adds 4 (do
      let position ← index i
      let source ← Draft.elemAddr .ptr table position "vslot.shared"
      let entry ← Draft.load .ptr source "ventry"
      let slot ← Draft.elemAddr .ptr copy position "vslot"
      Draft.store entry slot : Emit Unit) := fun i =>
    .bind (n := 1) (k := 3) (.defineBy _ _ _) fun _ =>
        .bind (n := 1) (k := 2) (.defineBy _ _ _) fun _ =>
      .bind (n := 1) (k := 1) (.defineBy _ _ _) fun _ =>
          .bind (n := 1) (k := 0) (.defineBy _ _ _) fun _ =>
        .of_grows (.write (.emit _))
  have all := Adds.forM each (List.range length)
  rw [List.length_range] at all
  exact all

theorem placeTable_adds (l : Lowering) (obj : ValueId) (cls : DeclId) (t : MethodTable)
    {overrides : List (Name × DeclId × Nat)} (some : overrides ≠ []) :
    Adds (t.length * 4) (placeTable l obj cls t overrides) := by
  have notEmpty : ¬ overrides.isEmpty = true := by simpa using some
  have patches (copy : ValueId) : Grows ((overrides.zipIdx t.length).forM fun entry =>
      patchSlot l cls obj copy entry.1.1 entry.1.2.1 entry.1.2.2 entry.2) :=
    .forM (fun entry => patchSlot_grows l cls obj copy _ _ _ _) _
  have rest (record : TyId) (copy : ValueId) :=
    Adds.of_grows (.bind (storeField_grows record obj 0 copy) fun _ => patches copy)
  have own (record : TyId) (table : ValueId) :=
    Adds.bind (.of_grows (.lift (Compile.types (·.array .ptr (t.length + overrides.length)))))
      fun array => Adds.bind (.defineBy .ptr "vtable.copy" (.alloc · array)) fun copy =>
        Adds.bind (copyTable_adds table copy t.length) fun _ => rest record copy
  refine (Adds.bind (n := 0) (.of_grows (.lift _)) fun layout =>
    Adds.bind (k := t.length * 4) (.defineBy _ _ _) fun table => ?_).mono (by omega)
  rw [if_neg notEmpty]
  exact (own layout.record table).mono (by omega)

end Emit

end ShapeCompiler
