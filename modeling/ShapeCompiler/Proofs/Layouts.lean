import ShapeCompiler.Proofs.Conversions
import ShapeCompiler.Proofs.Lineages
import ShapeCompiler.Proofs.Readings

/-!
# Instances of a class as those of a base

An instance is given to a place for a class above its own as it is. What is compiled there looks for
properties where the base has them.

* `PropertyFound.unique`: a property holds the same in every layout, as far as it was lowered inside
  of the same interfaces;
* `Arranged.base_first`: a layout begins with the properties of each base;
* `upcast_keeps_fields`: so both find a property in one field, if both have a method table or none.

A table that only a class further down asks for moves all fields (`late_table_moves_fields`).
-/

namespace ShapeCompiler

open Source Code Work

/-! ## What properties hold -/

/-- The interfaces that stand in the type of a property are in both lists or in none. -/
def SameInside (p : Program) (busy busy' : List DeclId) (d : DeclId) : Prop :=
  ∀ q u e, p.property d = .ok q → p.Within q.ty u → p.types.get u = .interface e →
    (e ∈ busy ↔ e ∈ busy')

theorem SameInside.refl (p : Program) (busy : List DeclId) (d : DeclId) :
    SameInside p busy busy d :=
  fun _ _ _ _ _ _ => .rfl

/-- What a property was found to hold is the reading of its type, or anything if that has
parameters. -/
theorem PropertyFound.reading {s : Setup} {w : Work} {busy : List DeclId}
    {prop : Name × DeclId × Info}
    (h : PropertyFound s w busy prop) : ∃ q, s.program.property prop.2.1 = .ok q ∧
      if s.program.types.mentionsParam q.ty then prop.2.2 = .any
      else ReadAs s w .root busy q.ty prop.2.2 := by
  obtain ⟨depth, w₀, w₁, moment, rfl, ran, later⟩ := h.info
  rw [Compile.propertyInfoBy, Compile.bind_apply, Compile.asks_apply] at ran
  cases isProperty : s.program.property prop.2.1 with
  | error e =>
    rw [isProperty] at ran
    cases ran
  | ok q =>
    rw [isProperty] at ran
    refine ⟨q, rfl, ?_⟩
    change (if s.program.types.mentionsParam q.ty then pure Info.any
      else Compile.infoAt depth .root q.ty) s w₀ = _ at ran
    split at ran
    · rename_i mentions
      rw [if_pos mentions]
      injection ran with isAny
      exact isAny.symm
    · rename_i closed
      have known : Bindings.root.KnownFor s.program w₀.registry q.ty := by
        intro u n i _ _ bound
        cases bound
      rw [if_neg closed]
      exact ((Compile.infoAt_reads depth .root q.ty moment known).of_ok ran).2.later later

/-- A property is found to hold one thing. -/
theorem PropertyFound.unique {s : Setup} {w : Work} {busy busy' : List DeclId}
    {prop prop' : Name × DeclId × Info} (h : PropertyFound s w busy prop)
    (h' : PropertyFound s w busy' prop') (same : prop'.2.1 = prop.2.1)
    (inside : SameInside s.program busy busy' prop.2.1) : prop'.2.2 = prop.2.2 := by
  obtain ⟨q, isProperty, read⟩ := h.reading
  obtain ⟨q', isProperty', read'⟩ := h'.reading
  rw [same, isProperty] at isProperty'
  cases isProperty'
  split at read
  · rename_i mentions
    rw [if_pos mentions] at read'
    exact read'.trans read.symm
  · rename_i closed
    rw [if_neg closed] at read'
    refine (read.unique read' ⟨fun _ _ _ _ => rfl, fun u e within isInterface => ?_⟩).symm
    exact inside q u e isProperty within isInterface

/-! ## Where properties are -/

namespace ClassLayout

variable {layout : ClassLayout} {n : Name} {k : Nat} {i : Info}

/-- The first property of the name has the field. -/
theorem field?_eq_some_iff : layout.field? n = some (k, i) ↔
    ∃ j prop, layout.props.findIdx? (·.1 = n) = some j ∧ layout.props[j]? = some prop ∧
      k = j + layout.offset ∧ i = prop.2.2 := by
  simp only [field?, Option.bind_eq_bind, Option.bind_eq_some_iff]
  constructor
  · rintro ⟨j, first, ⟨m, d, i'⟩, here, same⟩
    cases same
    exact ⟨j, (m, d, i'), first, here, rfl, rfl⟩
  · rintro ⟨j, ⟨m, d, i'⟩, first, here, rfl, rfl⟩
    exact ⟨j, first, _, here, rfl⟩

end ClassLayout

namespace Compile

/-- Among the fields that have names, the first of a name is the first of all. -/
theorem find?_numbered {fields : List (Name × Info)} {offset k : Nat} {n m : Name} {i : Info}
    (found : (numbered fields offset).find? (·.1 = n) = some (m, k, i)) :
    ∃ j, fields.findIdx? (·.1 = n) = some j ∧ fields[j]? = some (n, i) ∧ k = j + offset := by
  induction fields generalizing offset with
  | nil => cases found
  | cons field rest ih =>
    obtain ⟨m', i'⟩ := field
    simp only [numbered, List.zipIdx_cons, List.filterMap_cons] at found
    by_cases isEmpty : m' = .empty
    · simp only [if_pos isEmpty] at found
      have named : n ≠ .empty := by
        have inside := List.mem_of_find?_eq_some found
        have isName := List.find?_some found
        obtain ⟨⟨⟨m₀, i₀⟩, k₀⟩, _, picked⟩ := List.mem_filterMap.mp inside
        split at picked
        · cases picked
        · cases picked
          simp_all
      obtain ⟨j, first, here, rfl⟩ := ih found
      refine ⟨j + 1, ?_, by simpa using here, by omega⟩
      have apart : m' ≠ n := fun same => named (same.symm.trans isEmpty)
      simp [List.findIdx?_cons, apart, first]
    · simp only [if_neg isEmpty] at found
      by_cases same : m' = n
      · subst same
        simp only [List.find?_cons, decide_true] at found
        cases found
        exact ⟨0, by simp [List.findIdx?_cons], rfl, by omega⟩
      · simp only [List.find?_cons, same, decide_false] at found
        obtain ⟨j, first, here, rfl⟩ := ih found
        exact ⟨j + 1, by simp [List.findIdx?_cons, same, first], by simpa using here, by omega⟩

variable {s : Setup} {w : Work}

theorem layoutBy_known {part : PartInfo} {cls : DeclId} {layout : ClassLayout}
    (known : w.layouts.get? cls = some layout) : layoutBy part cls s w = .ok layout w := by
  have here : (get : Compile Work) s w = .ok w w := rfl
  simp only [layoutBy, bind_apply, here, known]
  rfl

theorem layoutOf_known {cls : DeclId} {layout : ClassLayout}
    (known : w.layouts.get? cls = some layout) : layoutOf cls s w = .ok layout w :=
    layoutBy_known known

/-- A property of an instance is found as the layout has it. -/
theorem fieldRef_known {cls : DeclId} {layout : ClassLayout} {n : Name} {ref : FieldRef} {w' : Work}
    (known : w.layouts.get? cls = some layout)
    (ran : fieldRef (.instanceOf cls) n s w = .ok (some ref) w') :
    w' = w ∧ ref.record = layout.record ∧ layout.field? n = some (ref.index, ref.info) := by
  have isRecord : recordOf (.instanceOf cls) s w = .ok (some layout.record) w := by
    simp only [recordOf, bind_apply, layoutOf_known known]
    rfl
  have isFields : namedFields (.instanceOf cls) s w =
      .ok (some (numbered layout.fields layout.offset)) w := by
    simp only [namedFields, bind_apply, layoutOf_known known]
    rfl
  simp only [fieldRef, bind_apply, isRecord, isFields, Option.getD_some] at ran
  cases found : (numbered layout.fields layout.offset).find? (·.1 = n) with
  | none =>
    rw [found] at ran
    cases ran
  | some field =>
    rw [found] at ran
    cases ran
    obtain ⟨m, k, i⟩ := field
    obtain ⟨j, first, here, rfl⟩ := find?_numbered found
    refine ⟨rfl, rfl, ClassLayout.field?_eq_some_iff.mpr ?_⟩
    simp only [ClassLayout.fields, List.getElem?_map] at here
    obtain ⟨⟨n', d, i'⟩, there, same⟩ := Option.map_eq_some_iff.mp here
    cases same
    refine ⟨j, (n', d, i'), ?_, there, rfl, rfl⟩
    simpa [ClassLayout.fields, List.findIdx?_map, Function.comp_def] using first

end Compile

/-- A layout begins with the properties of each base. -/
theorem Arranged.base_first {s : Setup} {w : Work} {cls base : DeclId} {chain : List DeclId}
    {ofBase own : ClassLayout} (h : Arranged s w cls own) (h' : Arranged s w base ofBase)
    (isChain : s.program.classChain cls = .ok chain) (ends : s.program.EndsAtTop chain)
    (above : base ∈ chain) : ofBase.props.map (·.2.1) <+: own.props.map (·.2.1) :=
  Program.instanceProperties_prefix isChain ends above h.props h'.props

/-- A layout is found as it was made, inside of some interfaces. -/
theorem Work.Reached.layoutOf_made {s : Setup} {w w' : Work} {cls : DeclId} {layout : ClassLayout}
    (h : Reached s w) (ran : Compile.layoutOf cls s w = .ok layout w') :
    Reaches s w w' ∧ w'.layouts.get? cls = some layout ∧ ∃ busy, layout.MadeAmid s w' busy ∧
      (w.layouts.get? cls = none → busy = w.interfacesInProgress) := by
  obtain ⟨there, known, fresh⟩ := (Compile.layoutOf_ends h.moment cls).of_ok ran
  refine ⟨there, known, ?_⟩
  cases before : w.layouts.get? cls with
  | none => exact ⟨w.interfacesInProgress, fresh before, fun _ => rfl⟩
  | some old =>
    obtain ⟨busy, made⟩ := (h.goes there).made cls layout known
    exact ⟨busy, made, nofun⟩

/-- Two layouts of which one begins with the properties of the other, each made inside of some
interfaces. -/
structure BeginsWith (s : Setup) (w : Work) (own ofBase : ClassLayout)
    (busy busyBase : List DeclId) :
    Prop where
  made : own.MadeAmid s w busy
  madeBase : ofBase.MadeAmid s w busyBase
  first : ofBase.props.map (·.2.1) <+: own.props.map (·.2.1)

namespace BeginsWith

variable {s : Setup} {w : Work} {own ofBase : ClassLayout} {busy busyBase : List DeclId}

theorem at_same (h : BeginsWith s w own ofBase busy busyBase) {k : Nat}
    {prop : Name × DeclId × Info} (here : ofBase.props[k]? = some prop) :
    ∃ i, own.props[k]? = some (prop.1, prop.2.1, i) ∧
      (SameInside s.program busyBase busy prop.2.1 → i = prop.2.2) := by
  have there : (own.props.map (·.2.1))[k]? = some prop.2.1 := by
    obtain ⟨more, parts⟩ := h.first
    rw [← parts, List.getElem?_append_left, List.getElem?_map, here]
    · rfl
    · simpa using (List.getElem?_eq_some_iff.mp here).1
  rw [List.getElem?_map] at there
  obtain ⟨⟨n, d, i⟩, there, same⟩ := Option.map_eq_some_iff.mp there
  have found := h.madeBase prop (List.mem_of_getElem? here)
  have found' := h.made (n, d, i) (List.mem_of_getElem? there)
  obtain ⟨decl, known, isName⟩ := found.name
  obtain ⟨decl', known', isName'⟩ := found'.name
  cases same
  cases known.symm.trans known'
  rw [isName, ← isName']
  exact ⟨i, there, found.unique found' rfl⟩

/-- A name that the base has is found at the same position. -/
theorem findIdx?_eq (h : BeginsWith s w own ofBase busy busyBase) {n : Name} {j : Nat}
    (first : ofBase.props.findIdx? (·.1 = n) = some j) :
    own.props.findIdx? (·.1 = n) = some j := by
  obtain ⟨inside, isName, before⟩ := List.findIdx?_eq_some_iff_getElem.mp first
  obtain ⟨i, there, _⟩ := h.at_same (List.getElem?_eq_getElem inside)
  obtain ⟨inside', same⟩ := List.getElem?_eq_some_iff.mp there
  refine List.findIdx?_eq_some_iff_getElem.mpr ⟨inside', by simpa [same] using isName, ?_⟩
  intro k less
  obtain ⟨i', there', _⟩ := h.at_same (List.getElem?_eq_getElem (less.trans inside))
  obtain ⟨_, same'⟩ := List.getElem?_eq_some_iff.mp there'
  simpa [same'] using before k less

/-- If both have a table or none, a property has one field in both. -/
theorem field?_eq (h : BeginsWith s w own ofBase busy busyBase)
    (tables : ofBase.hasTable = own.hasTable)
    {n : Name} {k : Nat} {i : Info} (found : ofBase.field? n = some (k, i)) :
    ∃ d i', (n, d, i) ∈ ofBase.props ∧ own.field? n = some (k, i') ∧
      (SameInside s.program busyBase busy d → i' = i) := by
  obtain ⟨j, ⟨m, d, i⟩, first, here, rfl, rfl⟩ := ClassLayout.field?_eq_some_iff.mp found
  obtain ⟨_, isName, _⟩ := List.findIdx?_eq_some_iff_getElem.mp first
  obtain ⟨inside, same⟩ := List.getElem?_eq_some_iff.mp here
  obtain rfl : m = n := by simpa [same] using isName
  obtain ⟨i', there, alike⟩ := h.at_same here
  refine ⟨d, i', List.mem_of_getElem? here, ClassLayout.field?_eq_some_iff.mpr ?_, alike⟩
  exact ⟨j, _, h.findIdx?_eq first, there, by simp [ClassLayout.offset, tables], rfl⟩

end BeginsWith

/-- Instances as those of a base. In a hierarchy that comes to an end, let a class and one of its
bases be laid out, whenever that was, and let both have a method table or none. Then each property
of the base has the same field in both. An instance that is given to a place for the base is the
same pointer there, and a property that is read or written through the base is in the field where
the class keeps the first property of this name, which is the one that its constructors fill. What
the field is known to hold is the same in both as well, as far as the two layouts were made inside
of the same interfaces among those that stand in the type of the property; a layout that is new is
made inside of those that are being lowered. -/
theorem upcast_keeps_fields {s : Setup} {cls base : DeclId} {chain : List DeclId}
    {own ofBase : ClassLayout} {wc wc' wb wb' w : Work}
    (isChain : s.program.classChain cls = .ok chain) (ends : s.program.EndsAtTop chain)
    (above : base ∈ chain)
    (reached : Reached s wc) (laidOut : Compile.layoutOf cls s wc = .ok own wc')
    (since : Reaches s wc' w)
    (reachedBase : Reached s wb) (laidOutBase : Compile.layoutOf base s wb = .ok ofBase wb')
    (sinceBase : Reaches s wb' w) (tables : ofBase.hasTable = own.hasTable) :
    ∃ busy busyBase : List DeclId,
      (wc.layouts.get? cls = none → busy = wc.interfacesInProgress) ∧
      (wb.layouts.get? base = none → busyBase = wb.interfacesInProgress) ∧
      own.offset = ofBase.offset ∧
      (∀ (k : Nat) (n : Name) (d : DeclId) (i : Info), ofBase.props[k]? = some (n, d, i) → ∃ i',
      own.props[k]? = some (n, d, i') ∧
        (SameInside s.program busyBase busy d → i' = i)) ∧
      (∀ l value f, cls ≠ base →
        Emit.coerce l (.boxed value (.instanceOf cls)) (.instanceOf base) f s w =
          .ok (.boxed value (.instanceOf base), f) w) ∧
      ∀ n ref w', Compile.fieldRef (.instanceOf base) n s w = .ok (some ref) w' →
        ∃ d i', (n, d, ref.info) ∈ ofBase.props ∧ own.field? n = some (ref.index, i') ∧
          (SameInside s.program busyBase busy d → i' = ref.info) := by
  obtain ⟨there, known, busy, made, fresh⟩ := reached.layoutOf_made laidOut
  obtain ⟨thereBase, knownBase, busyBase, madeBase, freshBase⟩ :=
    reachedBase.layoutOf_made laidOutBase
  have moment : Moment s w := reached.moment.later (there.trans since).later
  have isOwn := moment.layout_made cls own (since.layouts cls own known)
  have isBase := moment.layout_made base ofBase (sinceBase.layouts base ofBase knownBase)
  have begins : BeginsWith s w own ofBase busy busyBase :=
    ⟨made.later since.later, madeBase.later sinceBase.later,
      isOwn.base_first isBase isChain ends above⟩
  refine ⟨busy, busyBase, fresh, freshBase, by simp [ClassLayout.offset, tables], ?_, ?_, ?_⟩
  · intro k n d i here
    exact begins.at_same here
  · intro l value f apart
    exact Emit.coerce_derived ⟨cls, base, chain, rfl, rfl, isChain, above⟩
      (by simpa [Info.key]) value
  · intro n ref w' found
    obtain ⟨_, _, field⟩ := Compile.fieldRef_known (sinceBase.layouts base ofBase knownBase) found
    exact begins.field?_eq tables field

/-- A class with a property and two classes below it, of which the second asks for a method
table. -/
@[irreducible] def tableBelow : Program := (Id.run <| StateT.run (do
  let base ← Construction.classDecl "Base" none .none
  let plain ← Construction.classDecl "Plain" (some base) .none
  let late ← Construction.classDecl "Late" (some base) { table := true }
  discard <| Construction.property base "x" .number none
  Construction.pushEntry (← Construction.stmt (.classDecl base))
  Construction.pushEntry (← Construction.stmt (.classDecl plain))
  Construction.pushEntry (← Construction.stmt (.classDecl late)) : Building Unit) {}).2.program

/-- The state once the classes are declared. -/
def tableBelowWork : Work :=
  Compile.endOf ((Lowering.ofDepth 20).block tableBelow.entry topFrame)
    (.of tableBelow .ambient {}) .start

theorem reached_tableBelow : Reached (.of tableBelow .ambient {}) tableBelowWork :=
  .goes .start (Moment.reaches_top (by exact .same) 20 tableBelow.entry)

/-- The layouts of a class and of a base, and where a property of the base is found, if all
succeeds. -/
def access? (p : Program) (cls base : DeclId) (n : Name) (w : Work) :
    Option (ClassLayout × ClassLayout × FieldRef) :=
  match Compile.layoutOf cls (.of p .ambient {}) w with
  | .ok own w₁ => match Compile.layoutOf base (.of p .ambient {}) w₁ with
    | .ok ofBase w₂ => match Compile.fieldRef (.instanceOf base) n (.of p .ambient {}) w₂ with
      | .ok (some ref) _ => some (own, ofBase, ref)
      | _ => none
    | .error _ _ => none
  | .error _ _ => none

theorem of_access? {p : Program} {cls base : DeclId} {n : Name} {w : Work}
    {own ofBase : ClassLayout}
    {ref : FieldRef} (h : access? p cls base n w = some (own, ofBase, ref)) : ∃ w₁ w₂ w₃,
      Compile.layoutOf cls (.of p .ambient {}) w = .ok own w₁ ∧
      Compile.layoutOf base (.of p .ambient {}) w₁ = .ok ofBase w₂ ∧
      Compile.fieldRef (.instanceOf base) n (.of p .ambient {}) w₂ = .ok (some ref) w₃ := by
  unfold access? at h
  split at h
  · rename_i w₁ ran₁
    split at h
    · rename_i w₂ ran₂
      split at h
      · rename_i w₃ ran₃
        cases h
        exact ⟨w₁, w₂, w₃, ran₁, ran₂, ran₃⟩
      · cases h
    · cases h
  · cases h

/-- Without a table the property is in the first field for the class and for the base, and holds a
number for both. -/
theorem upcast_keeps_fields_tableBelow : ∃ own ofBase w₁ w₂ ref w₃,
    Compile.layoutOf ⟨1⟩ (.of tableBelow .ambient {}) tableBelowWork = .ok own w₁ ∧
    Compile.layoutOf ⟨0⟩ (.of tableBelow .ambient {}) w₁ = .ok ofBase w₂ ∧
    Compile.fieldRef (.instanceOf ⟨0⟩) ⟨4⟩ (.of tableBelow .ambient {}) w₂ = .ok (some ref) w₃ ∧
    ref.index = 0 ∧ ref.info = .number ∧ own.field? ⟨4⟩ = some (0, .number) := by
  have found : (access? tableBelow ⟨1⟩ ⟨0⟩ ⟨4⟩ tableBelowWork).map
      (fun a => (a.1.hasTable, a.2.1.hasTable, a.2.2.index, a.2.2.info)) =
        some (false, false, 0, .number) := by
    decide +kernel
  obtain ⟨⟨own, ofBase, ref⟩, found, facts⟩ := Option.map_eq_some_iff.mp found
  simp only [Prod.mk.injEq] at facts
  obtain ⟨noTable, noTable', isIndex, isInfo⟩ := facts
  obtain ⟨w₁, w₂, w₃, ran₁, ran₂, ran₃⟩ := of_access? found
  have there₁ := (reached_tableBelow.layoutOf_made ran₁).1
  have there₂ := ((reached_tableBelow.goes there₁).layoutOf_made ran₂).1
  have isChain : tableBelow.classChain ⟨1⟩ = .ok [⟨1⟩, ⟨0⟩] := by decide +kernel
  obtain ⟨busy, busyBase, fresh, freshBase, _, _, _, access⟩ := upcast_keeps_fields
    isChain (by decide +kernel) (by decide) reached_tableBelow ran₁ there₂
    (reached_tableBelow.goes there₁) ran₂ (.refl w₂) (noTable'.trans noTable.symm)
  obtain ⟨d, i', _, field, alike⟩ := access _ _ _ ran₃
  have new : tableBelowWork.layouts.get? ⟨1⟩ = none := by decide +kernel
  have newBase : (match Compile.layoutOf ⟨1⟩ (.of tableBelow .ambient {}) tableBelowWork with
      | .ok _ w₁ => (w₁.layouts.get? ⟨0⟩).isNone
      | .error _ _ => false) = true := by
    decide +kernel
  rw [ran₁] at newBase
  have same : busyBase = busy := by
    rw [fresh new, freshBase (Option.isNone_iff_eq_none.mp newBase), there₁.interfaces]
  refine ⟨own, ofBase, w₁, w₂, ref, w₃, ran₁, ran₂, ran₃, isIndex, isInfo, ?_⟩
  rw [field, alike (same ▸ .refl _ _ _), isIndex, isInfo]

/-- With a table that only the class asks for, the property has another field than in the base. -/
theorem late_table_moves_fields : ∃ own ofBase w₁ w₂ ref w₃,
    tableBelow.classChain ⟨2⟩ = .ok [⟨2⟩, ⟨0⟩] ∧ tableBelow.EndsAtTop [⟨2⟩, ⟨0⟩] ∧
    Reached (.of tableBelow .ambient {}) tableBelowWork ∧
    Compile.layoutOf ⟨2⟩ (.of tableBelow .ambient {}) tableBelowWork = .ok own w₁ ∧
    Compile.layoutOf ⟨0⟩ (.of tableBelow .ambient {}) w₁ = .ok ofBase w₂ ∧
    Compile.fieldRef (.instanceOf ⟨0⟩) ⟨4⟩ (.of tableBelow .ambient {}) w₂ = .ok (some ref) w₃ ∧
    ref.index = 0 ∧ own.field? ⟨4⟩ = some (1, .number) := by
  have found : (access? tableBelow ⟨2⟩ ⟨0⟩ ⟨4⟩ tableBelowWork).map
      (fun a => (a.1.field? ⟨4⟩, a.2.2.index)) = some (some (1, .number), 0) := by
    decide +kernel
  obtain ⟨⟨own, ofBase, ref⟩, found, facts⟩ := Option.map_eq_some_iff.mp found
  simp only [Prod.mk.injEq] at facts
  obtain ⟨w₁, w₂, w₃, ran₁, ran₂, ran₃⟩ := of_access? found
  exact ⟨own, ofBase, w₁, w₂, ref, w₃, by decide +kernel, by decide +kernel,
    reached_tableBelow, ran₁,
    ran₂, ran₃, facts.2, facts.1⟩

end ShapeCompiler
