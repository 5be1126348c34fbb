import ShapeCompiler.Proofs.Depths
import ShapeCompiler.Proofs.Intersections
import ShapeCompiler.Proofs.Operands

/-!
# Values in another form come to an end

To give a value another form, its parts are given the forms of the parts. Either the form that is
wanted has fewer shapes before it, or it stays and the value has.

* `EndingBelow`: values can be given every form with fewer shapes before it;
* `coerce_ending`: so they can be given every form.

A class that is taken out of an intersection has as many fields as the class declares, of any form;
they are given no other form, as long as they are such as the class has.
-/

namespace ShapeCompiler

open Source Code Work

variable {s : Setup} {keys : List FunctionKey} {base w w' : Work}

theorem Info.eq_closure_of_key {i : Info} (h : i.key = .closure) : ∃ known, i = .closure known := by
  cases i with
  | closure known => exact ⟨known, rfl⟩
  | _ => cases h

/-! ## What is looked up -/

theorem Compile.of_unionShape_ok {id : ShapeId} {shape : UnionShape}
    (ran : unionShape id s w = .ok shape w') :
    w' = w ∧ w.registry.shape? id = some (.union shape) := by
  simp only [unionShape, registry_bind_apply] at ran
  cases found : w.registry.union? id with
  | none =>
    rw [found] at ran
    cases ran
  | some shape' =>
    rw [found] at ran
    cases ran
    exact ⟨rfl, Registry.union?_eq_some_iff.mp found⟩

namespace Work.Confined

theorem objectShape (h : w.Confined s keys) {id : ShapeId} {shape : ObjectShape}
    (ran : Compile.objectShape id s w = .ok shape w') : ∀ f ∈ shape.props, f.2.rank ≤ id.raw := by
  obtain ⟨rfl, known⟩ := Compile.of_objectShape_ok ran
  exact fun f inside => h.founded id _ known f.2 (List.mem_map_of_mem inside)

theorem unionShape (h : w.Confined s keys) {id : ShapeId} {shape : UnionShape}
    (ran : Compile.unionShape id s w = .ok shape w') :
    ∀ slot ∈ shape.slots, slot.info.rank ≤ id.raw := by
  obtain ⟨rfl, known⟩ := Compile.of_unionShape_ok ran
  exact fun slot inside => h.founded id _ known slot.info (List.mem_map_of_mem inside)

theorem intersectionShape (h : w.Confined s keys) {id : ShapeId} {shape : IntersectionShape}
    (ran : Compile.intersectionShape id s w = .ok shape w') :
    ∀ f ∈ shape.fields, f.2.rank ≤ id.raw := by
  obtain ⟨rfl, known⟩ := Compile.of_intersectionShape_ok ran
  exact fun f inside => h.founded id _ known f.2 (List.mem_map_of_mem inside)

end Work.Confined

theorem infoAtField_rank_le {fields : List (Name × Info)} {n : Nat} (h : ∀ f ∈ fields, f.2.rank ≤ n)
    (i : Nat) : (infoAtField fields i).rank ≤ n := by
  unfold infoAtField
  cases found : fields[i]? with
  | none => exact Nat.zero_le _
  | some f => exact h f (List.mem_of_getElem? found)

theorem UnionShape.slotInfo_rank_le {u : UnionShape} {n : Nat}
    (h : ∀ slot ∈ u.slots, slot.info.rank ≤ n)
    (i : Nat) : (u.slotInfo i).rank ≤ n := by
  unfold slotInfo
  cases found : u.slots[i]? with
  | none => exact Nat.zero_le _
  | some slot => exact h slot (List.mem_of_getElem? found)

theorem UnionShape.memberInfo_rank_le {u : UnionShape} {n : Nat}
    (h : ∀ slot ∈ u.slots, slot.info.rank ≤ n) : u.memberInfo.rank ≤ n := by
  unfold memberInfo
  cases found : u.slots.head? with
  | none => exact Nat.zero_le _
  | some slot => exact h slot (List.mem_of_mem_head? found)

namespace Lowering

/-! ## Bodies and forms -/

theorem body_leveled (subject : Subject) (cls : Option DeclId) (args : List Info) :
    Compile.Leveled s (·.body subject cls args) :=
  ⟨fun h => h.body subject cls args, fun hl => hl.body_walks subject cls args⟩

/-- A body is asked for by what is known of the arguments. -/
theorem body_ending [s.TypesEnd] (bodies : ∀ spec, Compile.Ending s keys base (·.compile spec))
    (subject : Subject) (cls : Option DeclId) (args : List Info) :
    Compile.Ending s keys base (·.body subject cls args) :=
  .after ⟨fun moment => (Compile.specialize_ends moment subject cls args).mono
    fun _ _ _ _ => trivial⟩
    bodies

theorem body_tame [s.TypesEnd] (bodies : ∀ spec, Compile.Ending s keys base (·.compile spec))
    (subject : Subject) (cls : Option DeclId) (args : List Info) :
    Emit.Tame s keys base fun l => liftM (l.body subject cls args) :=
  .lift (body_leveled subject cls args) (body_ending bodies subject cls args)

theorem coerce_leveled (v : Operand) (i : Info) : Emit.Leveled s (·.coerce v i) :=
  ⟨fun h => h.coerce v i, fun hl => hl.coerce v i⟩

theorem extract_leveled (v : Operand) (id : ShapeId) (i : Info) :
    Emit.Leveled s (·.extract v id i) :=
  ⟨fun h => h.extract v id i, fun hl => hl.extract v id i⟩

theorem coerced_of {v : Operand} {i : Info} (h : Emit.Ending s keys base (·.coerce v i)) :
    Emit.Tame s keys base (·.coerced v i) :=
  .bind ⟨coerce_leveled v i, h⟩ fun v => .flat (Emit.boxed_walks v)

end Lowering

/-- Values can be given every form that has fewer shapes before it. -/
structure EndingBelow (s : Setup) (keys : List FunctionKey) (base : Work) (n : Nat) : Prop where
  coerce : ∀ v i, i.rank < n → Emit.Ending s keys base (·.coerce v i)
  extract : ∀ v id i, i.rank < n → Emit.Ending s keys base (·.extract v id i)

namespace EndingBelow

variable {n : Nat}

theorem later (h : EndingBelow s keys base n) (there : base.Reaches s w) :
    EndingBelow s keys w n where
  coerce v i lower := (h.coerce v i lower).later there
  extract v id i lower := (h.extract v id i lower).later there

theorem coerced (h : EndingBelow s keys base n) (v : Operand) {i : Info} (lower : i.rank < n) :
    Emit.Tame s keys base (·.coerced v i) := Lowering.coerced_of (h.coerce v i lower)

theorem argument (h : EndingBelow s keys base n) (arg : Option Operand) {i : Info}
    (lower : i.rank < n) :
    Emit.Tame s keys base (·.argument arg i) := by
  cases arg with
  | some v => exact h.coerced v lower
  | none => exact .after (Emit.nullValue_walks _) fun _ => h.coerced _ lower

end EndingBelow

namespace Emit

variable {m n : Nat}

/-! ## Records -/

theorem fillFields_tame (below : EndingBelow s keys base n) (record : TyId) (ptr : ValueId)
    (fields : List (Nat × Operand × Info)) (lower : ∀ f ∈ fields, f.2.2.rank < n) :
    Tame s keys base fun l => fillFields l record ptr fields := by
  induction fields with
  | nil => exact .flat (m := pure ()) (.pure _)
  | cons field rest ih =>
    exact .bind (below.coerced _ (lower field List.mem_cons_self)) fun _ =>
      .after (storeField_walks _ _ _ _) fun _ => ih fun f inside =>
        lower f (List.mem_cons_of_mem _ inside)

theorem copyIntoObject_ending [s.TypesEnd] (below : EndingBelow s keys base n)
    (v : Operand) {target : ShapeId}
    (lower : target.raw < n) : Ending s keys base fun l => copyIntoObject l v target := by
  refine .seen_bind (Compile.objectShape_walks _) (fun hl => copyIntoObject_walks hl v target)
    fun shape w w' before after confined ran => ?_
  have known := confined.objectShape ran
  refine .after (fieldValues_walks v) fun source => ?_
  cases source with
  | none => exact .flat (m := liftM (Compile.mismatch (.object target) v.info : Compile Operand))
  | some source =>
    refine .draft fun obj => .bind (.forM_mem _ ?_) fun _ => .flat
    rintro ⟨⟨p, info⟩, i⟩ inside
    have isProp : (p, info) ∈ shape.props := List.fst_mem_of_mem_zipIdx inside
    exact .bind ((below.later (before.trans after)).argument _
        (Nat.lt_of_le_of_lt (known _ isProp) lower)) fun _ =>
      .flat (storeField_walks _ _ _ _)

/-! ## Into a union -/

theorem propertyMoves_tame [s.TypesEnd] (below : EndingBelow s keys base n)
    (v : Operand) {u : UnionShape}
    (known : ∀ slot ∈ u.slots, slot.info.rank ≤ m) (lower : m < n) :
    Tame s keys base fun l => propertyMoves l v u := by
  refine .after (fieldValues_walks v) fun fields => .filterMapM (fun found => ?_) _
  dsimp only
  split
  · exact .bind (below.coerced _ (Nat.lt_of_le_of_lt (UnionShape.slotInfo_rank_le known _) lower))
      fun _ => .flat (.pure _)
  · exact .flat (m := pure none) (.pure _)

theorem initMember_ending [s.TypesEnd] (below : EndingBelow s keys base n)
    (v : Operand) {u : UnionShape}
    (target : ShapeId) (known : ∀ slot ∈ u.slots, slot.info.rank ≤ m) (lower : m < n) :
    Ending s keys base fun l => initMember l v u target := by
  unfold initMember
  split
  · exact .flat
  · exact .flat
  · exact .bind (propertyMoves_tame below v known lower) fun _ => .flat

theorem initOptional_ending (below : EndingBelow s keys base n) (v : Operand) {u : UnionShape}
    (target : ShapeId) (known : ∀ slot ∈ u.slots, slot.info.rank ≤ m) (lower : m < n) :
    Ending s keys base fun l => initOptional l v u target := by
  have isLower := Nat.lt_of_le_of_lt (UnionShape.memberInfo_rank_le known) lower
  unfold initOptional
  dsimp only
  split
  · exact .bind ⟨Lowering.extract_leveled _ _ _, below.extract _ _ _ isLower⟩ fun _ => .flat
  · exact .bind ⟨Lowering.coerce_leveled _ _, below.coerce _ _ isLower⟩ fun _ => .flat

theorem unionInit_ending [s.TypesEnd] (below : EndingBelow s keys base n)
    (v : Operand) {target : ShapeId}
    (lower : target.raw < n) : Ending s keys base fun l => unionInit l v target := by
  refine .seen_bind (Compile.unionShape_walks _) (fun hl => unionInit_walks hl v target)
    fun u w w' before after confined ran => .ite .flat (.ite .flat (.ite .flat ?_))
  have known := confined.unionShape ran
  exact .ite (initOptional_ending (below.later (before.trans after)) v target known lower)
    (initMember_ending (below.later (before.trans after)) v target known lower)

/-! ## Out of a union -/

theorem extractObject_ending [s.TypesEnd] (below : EndingBelow s keys base n)
    (u : UnionShape) (ptr : ValueId)
    {target : ShapeId} (lower : target.raw < n) :
    Ending s keys base fun l => extractObject l u ptr target := by
  refine .seen_bind (Compile.objectShape_walks _) (fun hl => extractObject_walks hl u ptr target)
    fun o w w' before after confined ran => ?_
  have known := confined.objectShape ran
  split
  · exact .flat
  · rename_i props isProps
    refine .draft fun r => .bind (.forM_mem _ ?_) fun _ => .flat
    rintro ⟨⟨p, info, slot⟩, i⟩ inside
    obtain ⟨⟨p', info'⟩, isProp, isSlot⟩ :=
      exists_of_mapM isProps (List.fst_mem_of_mem_zipIdx inside)
    obtain ⟨_, _, isSame⟩ := Option.map_eq_some_iff.mp isSlot
    cases isSame
    exact .after (.text _) fun _ => .after (loadField_walks _ _ _ _) fun _ =>
      .bind ((below.later (before.trans after)).coerced _
          (Nat.lt_of_le_of_lt (known _ isProp) lower)) fun _ =>
        .flat (storeField_walks _ _ _ _)

/-- Values with fewer shapes before them can be given the form. -/
def EndsAlready (s : Setup) (keys : List FunctionKey) (base : Work) (target : Info) (m : Nat) :
    Prop :=
  ∀ v : Operand, v.info.rank ≤ m → Ending s keys base (·.coerce v target)

theorem extractOptional_ending {u : UnionShape} (known : ∀ slot ∈ u.slots, slot.info.rank ≤ m)
    (ptr : ValueId) {target : Info} (already : EndsAlready s keys base target m) :
    Ending s keys base fun l => extractOptional l u ptr target := by
  have rest (fits : Bool) : Ending s keys base fun l => if fits then (do
      let value ← loadField u.record ptr 1 "value"
      l.coerce (.boxed value u.memberInfo) target) else unknownMember u target :=
    .ite (.after (loadField_walks _ _ _ _) fun _ =>
      already _ (UnionShape.memberInfo_rank_le known)) .flat
  unfold extractOptional
  dsimp only
  split
  · exact .after (.pure _) rest
  · exact .after (.lift (widensTo_walks _ _)) rest

theorem extractMember_ending [s.TypesEnd] (below : EndingBelow s keys base n) {u : UnionShape}
    (known : ∀ slot ∈ u.slots, slot.info.rank ≤ m) (ptr : ValueId) {target : Info}
    (lower : target.rank ≤ n) (already : EndsAlready s keys base target m) :
    Ending s keys base fun l => extractMember l u ptr target := by
  unfold extractMember
  split
  · exact .after (loadField_walks _ _ _ _) fun _ => already _ (UnionShape.slotInfo_rank_le known _)
  · exact extractObject_ending below u ptr lower
  · exact .flat

theorem unionExtract_ending [s.TypesEnd] (below : EndingBelow s keys base n) (v : Operand)
    (source : ShapeId)
    {target : Info} (lower : target.rank ≤ n)
    (already : EndsAlready s keys base target source.raw) :
    Ending s keys base fun l => unionExtract l v source target := by
  refine .seen_bind (Compile.unionShape_walks _) (fun hl => unionExtract_walks hl v source target)
    fun u w w' before after confined ran => ?_
  have known := confined.unionShape ran
  have already (v : Operand) (fewer : v.info.rank ≤ source.raw) :=
    (already v fewer).later (before.trans after)
  have below := below.later (before.trans after)
  split
  · exact .ite .flat (unionInit_ending below v lower)
  · exact .after (boxed_walks v) fun ptr => .ite (extractOptional_ending known ptr already)
      (extractMember_ending below known ptr lower already)

/-! ## Into an intersection -/

theorem initFromIntersection_ending (below : EndingBelow s keys base n) (v : Operand)
    {shape : IntersectionShape} (known : ∀ f ∈ shape.fields, f.2.rank ≤ m) (lower : m < n)
    (target source : ShapeId) :
    Ending s keys base fun l => initFromIntersection l v shape target source := by
  refine .after (.lift (Compile.intersectionShape_walks _)) fun src =>
    .after (boxed_walks v) fun ptr => ?_
  split
  · exact .flat
  · refine .draft fun r => .bind (.forM (fun move => ?_) _) fun _ => .flat
    have isLower := Nat.lt_of_le_of_lt (infoAtField_rank_le known move.1) lower
    exact .after (loadField_walks _ _ _ _) fun _ => .bind (below.coerced _ isLower) fun _ =>
      .flat (storeField_walks _ _ _ _)

theorem initFromFields_ending (below : EndingBelow s keys base n) (v : Operand)
    {shape : IntersectionShape} (known : ∀ f ∈ shape.fields, f.2.rank ≤ m) (lower : m < n)
    (target : ShapeId) (source : List (Name × Operand)) :
    Ending s keys base fun l => initFromFields l v shape target source := by
  unfold initFromFields
  split
  · exact .flat
  · refine .draft fun r => .bind (fillFields_tame below _ _ _ ?_) fun _ => .flat
    intro f inside
    obtain ⟨⟨⟨value, p, info⟩, i⟩, isField, rfl⟩ := List.mem_map.mp inside
    have isField := (List.of_mem_zip (List.fst_mem_of_mem_zipIdx isField)).2
    exact Nat.lt_of_le_of_lt (known _ isField) lower

theorem initSingle_ending (below : EndingBelow s keys base n) (v : Operand)
    {shape : IntersectionShape} (known : ∀ f ∈ shape.fields, f.2.rank ≤ m) (lower : m < n)
    (target : ShapeId) : Ending s keys base fun l => initSingle l v shape target := by
  unfold initSingle
  split
  · rename_i p info isFields
    have isField : (p, info) ∈ shape.fields := by simp [isFields]
    exact .bind (below.coerced _ (Nat.lt_of_le_of_lt (known _ isField) lower)) fun _ => .flat
  · exact .flat

theorem intersectionInit_ending [s.TypesEnd] (below : EndingBelow s keys base n)
    (v : Operand) {target : ShapeId}
    (lower : target.raw < n) : Ending s keys base fun l => intersectionInit l v target := by
  refine .seen_bind (Compile.intersectionShape_walks _)
    (fun hl => intersectionInit_walks hl v target)
    fun shape w w' before after confined ran => .ite .flat (.ite .flat ?_)
  have known := confined.intersectionShape ran
  have below := below.later (before.trans after)
  split
  · exact initFromIntersection_ending below v known lower target _
  · refine .after (fieldValues_walks v) fun source => ?_
    cases source with
    | some source => exact initFromFields_ending below v known lower target source
    | none => exact initSingle_ending below v known lower target

/-! ## Out of an intersection -/

/-- A value that is kept as the form that is wanted stays as it is. -/
theorem coerce_same_flat (l : Lowering) {v : Operand} {target : Info}
    (same : v.info.key = target.key) :
    Flat s (coerce l v target) := by
  unfold coerce
  split
  · infer_instance
  · rename_i isOther
    rcases Info.eq_or_closure same with isSame | isClosure
    · exact absurd isSame isOther
    · obtain ⟨known, isKnown⟩ := Info.eq_closure_of_key isClosure
      obtain ⟨wanted, rfl⟩ := Info.eq_closure_of_key (same.symm.trans isClosure)
      simp only [isKnown, coercePlain]
      split <;> infer_instance

/-- A value of which nothing is known is trusted to have the form. -/
theorem coerce_any_flat (l : Lowering) {v : Operand} (isAny : v.info = .any) (target : Info) :
    Flat s (coerce l v target) := by
  unfold coerce
  split
  · infer_instance
  · rw [isAny]
    cases target with
    | union id =>
      refine .next fun u => ?_
      simp only [isAny, if_true]
      infer_instance
    | _ => infer_instance

theorem coerce_ending_of_flat {v : Operand} {target : Info} (h : ∀ l, Flat s (coerce l v target)) :
    Ending s keys base (·.coerce v target) :=
  .next (m := fun l => coerce l v target) (fun _ => rfl) (.always h)

/-- The fields of a run that fits are given no other form. -/
theorem runFits_ending {shape : IntersectionShape} {wanted : List (Name × Info)} {start i : Nat}
    (fits : shape.runFits wanted start = true) {p : Name} {info : Info}
    (inside : ((p, info), i) ∈ wanted.zipIdx) (value : ValueId) :
    Ending s keys base (·.coerce (.boxed value (infoAtField shape.fields (start + i))) info) := by
  cases found : shape.fields[start + i]? with
  | none =>
    exact coerce_ending_of_flat fun l => coerce_any_flat l
      (by simp [infoAtField, found, Operand.boxed]) info
  | some f =>
    refine coerce_ending_of_flat fun l => coerce_same_flat l ?_
    have isWanted := List.mem_zipIdx_iff_getElem?.mp inside
    have here : (f, p, info) ∈ (shape.fields.drop start).zip wanted := by
      refine List.mem_of_getElem? (i := i) ?_
      simp only [List.getElem?_zip_eq_some, List.getElem?_drop]
      exact ⟨found, isWanted⟩
    simpa [infoAtField, found, Operand.boxed] using List.all_eq_true.mp fits _ here

/-- The fields of the member are copied, if each can be given the form that is wanted. -/
theorem copyRun_ending [s.TypesEnd] (shape : IntersectionShape) (v : Operand) {target : Info}
    {wanted : List (Name × Info)} {start : Nat}
    (single : ∀ value, Ending s keys base
      (·.coerce (.boxed value (infoAtField shape.fields start)) target))
    (each : wanted.map (·.1) ≠ [.empty] → ∀ value p info i, ((p, info), i) ∈ wanted.zipIdx →
      Ending s keys base (·.coerce (.boxed value (infoAtField shape.fields (start + i))) info)) :
    Ending s keys base fun l => do
      let ptr ← boxed v
      if wanted.map (·.1) = [.empty] then
        let value ← loadField shape.record ptr start "member"
        l.coerce (.boxed value (infoAtField shape.fields start)) target
      else
        let record ← memberRecord shape v.info target
        let r ← Draft.alloc record "member"
        wanted.zipIdx.forM fun ((n, info), i) => do
          let value ← loadField shape.record ptr (start + i) (← Compile.text n)
          storeField record r i (← l.coerced (.boxed value (infoAtField shape.fields (start + i)))
          info)
        return .boxed r target := by
  refine .after (boxed_walks v) fun ptr => ?_
  split
  · exact .after (loadField_walks _ _ _ _) fun _ => single _
  rename_i isRun
  refine .after (memberRecord_walks _ _ _) fun record => .draft fun r =>
    .bind (.forM_mem _ ?_) fun _ => .flat
  rintro ⟨⟨p, info⟩, i⟩ inside
  exact .after (.text p) fun _ => .after (loadField_walks _ _ _ _) fun _ =>
    .bind (Lowering.coerced_of (each isRun _ p info i inside)) fun _ =>
      .flat (storeField_walks _ _ _ _)

/-- The fields of an object or an intersection that is wanted have fewer shapes before them. -/
theorem memberFields_rank_le (confined : w.Confined s keys) {target : Info}
    {wanted : List (Name × Info)}
    (ran : Compile.memberFields target s w = .ok wanted w') (isClass : ∀ c, target ≠ .instanceOf c)
    (isRun : wanted.map (·.1) ≠ [.empty]) : ∀ f ∈ wanted, f.2.rank < target.rank := by
  cases target with
  | object id =>
    obtain ⟨shape, w₁, isShape, done⟩ := Compile.of_bind_ok ran
    cases done
    exact fun f inside => Nat.lt_succ_of_le (confined.objectShape isShape f inside)
  | intersection id =>
    obtain ⟨shape, w₁, isShape, done⟩ := Compile.of_bind_ok ran
    cases done
    exact fun f inside => Nat.lt_succ_of_le (confined.intersectionShape isShape f inside)
  | instanceOf c => exact absurd rfl (isClass c)
  | _ =>
    cases ran
    exact absurd rfl isRun

theorem intersectionExtract_ending [s.TypesEnd] (below : EndingBelow s keys base n) (v : Operand)
    (source : ShapeId) {target : Info} (lower : target.rank ≤ n)
    (already : EndsAlready s keys base target source.raw) :
    Ending s keys base fun l => intersectionExtract l v source target := by
  refine .asked_bind (Compile.intersectionShape_walks _)
      fun shape w w₁ there there₁ moment isShape =>
    .ite .flat ?_
  refine .asked_bind (Compile.memberFields_walks _)
    fun wanted w₂ w₃ there₂ there₃ moment₂ isWanted => ?_
  refine .seen_bind (Compile.infoName_walks target) (fun hl => .bind (.infoName _) fun name => ?_)
    fun name w₄ w₅ there₄ there₅ confined isName => ?_
  · split
    · exact .mismatch _ _
    · refine .bind (boxed_walks v) fun _ => .ite
        (.bind (loadField_walks _ _ _ _) fun _ => hl.coerce _ _)
        (.bind (memberRecord_walks _ _ _) fun _ => .draft_bind fun _ =>
          .bind (.forM (fun field => ?_) _) fun _ => .pure _)
      exact .bind (.text field.1.1) fun _ => .bind (loadField_walks _ _ _ _) fun _ =>
        .bind (hl.coerced _ _) fun _ => storeField_walks _ _ _ _
  have confined₂ := confined.before (there₃.trans there₄)
  have known := (confined₂.before (there₁.trans there₂)).intersectionShape isShape
  have there : base.Reaches s w₅ := there.trans
    (there₁.trans (there₂.trans (there₃.trans (there₄.trans there₅))))
  split
  · exact .flat
  rename_i start isStart
  refine copyRun_ending shape v (fun value =>
    (already _ (infoAtField_rank_le known start)).later there)
    fun isRun value p info i inside => ?_
  by_cases isClass : ∃ c, target = .instanceOf c
  · obtain ⟨c, rfl⟩ := isClass
    obtain ⟨layout, w', isLayout, done⟩ := Compile.of_bind_ok isWanted
    obtain ⟨rfl, rfl⟩ : wanted = layout.fields ∧ w₃ = w' := by
      cases done
      exact ⟨rfl, rfl⟩
    cases isName
    obtain ⟨_, isThere⟩ := Compile.of_intersectionShape_ok isShape
    have isThere := Registry.shape?_of_prefix
      (there₁.trans (there₂.trans (there₃.trans there₄))).later.shapes isThere
    have laidOut := ((Compile.layoutOf_ends moment₂ c).of_ok isLayout).2.1
    have known := Registry.intersection?_eq_some_iff.mpr isThere
    exact runFits_ending (confined.classes source shape known c layout
      (there₄.layouts c layout laidOut)
      start isStart) inside value
  · have fewer := memberFields_rank_le confined₂ isWanted (fun c isIt => isClass ⟨c, isIt⟩) isRun _
      (List.fst_mem_of_mem_zipIdx inside)
    exact (below.coerce _ info (Nat.lt_of_lt_of_le fewer lower)).later there

/-! ## Every form -/

variable [s.TypesEnd]

/-- A generic function gets its code, which may be another body. -/
theorem specializeLazy_ending (bodies : ∀ spec, Compile.Ending s keys base (·.compile spec))
    (f : Operand) (d : DeclId) (sig : TypeId) :
    Ending s keys base fun l => specializeLazy l f d sig :=
  .after (sigInfos_walks sig) fun sigInfos =>
    .bind (Lowering.body_tame bodies (.function d) none sigInfos.1) fun _ => .flat

theorem coercePlain_ending (bodies : ∀ spec, Compile.Ending s keys base (·.compile spec))
    (below : EndingBelow s keys base n) (v : Operand) {target : Info} (lower : target.rank ≤ n) :
    Ending s keys base fun l => coercePlain l v target := by
  refine .ite .flat ?_
  split
  · exact .flat
  · exact copyIntoObject_ending below v lower
  · exact copyIntoObject_ending below v lower
  · exact .flat
  · split
    · exact specializeLazy_ending bodies v _ _
    · exact .flat
  · exact .flat

theorem coerce_ending_of (bodies : ∀ spec, Compile.Ending s keys base (·.compile spec))
    (below : EndingBelow s keys base n) {v : Operand} {target : Info} (lower : target.rank ≤ n)
    (already : ∀ m < v.info.rank, EndsAlready s keys base target m) :
    Ending s keys base (·.coerce v target) := by
  refine .next (m := fun l => coerce l v target) (fun _ => rfl) ?_
  unfold coerce
  refine .ite .flat ?_
  split
  · exact .flat
  · exact .flat
  · exact .flat
  · exact unionInit_ending below v lower
  · exact .flat
  · rename_i source isUnion _ _ _
    exact unionExtract_ending below v source lower (already _ (by simp [isUnion, Info.rank]))
  · exact intersectionInit_ending below v lower
  · rename_i source isIntersection _ _ _ _
    exact intersectionExtract_ending below v source lower
      (already _ (by simp [isIntersection, Info.rank]))
  · exact coercePlain_ending bodies below v lower

/-- By induction on the shapes before the form, and on those before the value. -/
theorem endingBelow (bodies : ∀ spec, Compile.Ending s keys base (·.compile spec)) (n : Nat) :
    EndingBelow s keys base n := by
  induction n with
  | zero =>
    exact ⟨fun _ _ lower => absurd lower (Nat.not_lt_zero _), fun _ _ _ lower =>
      absurd lower (Nat.not_lt_zero _)⟩
  | succ n below =>
    have already (target : Info) (lower : target.rank ≤ n) (m : Nat) :
        EndsAlready s keys base target m := by
      induction m with
      | zero =>
        intro v fewer
        exact coerce_ending_of bodies below lower fun m isLess => absurd isLess (by omega)
      | succ m ih =>
        intro v fewer
        exact coerce_ending_of bodies below lower fun m' isLess v' fewer' => ih v' (by omega)
    exact {
      coerce := fun v i lower => already i (by omega) v.info.rank v (Nat.le_refl _)
      extract := fun v id i lower => .next (m := fun l => unionExtract l v id i) (fun _ => rfl)
        (unionExtract_ending below v id (by omega) (already i (by omega) _)) }

end Emit

namespace Lowering

variable [s.TypesEnd] (bodies : ∀ spec, Compile.Ending s keys base (·.compile spec))

include bodies

/-- Every value can be given every form. -/
theorem coerce_tame (v : Operand) (i : Info) : Emit.Tame s keys base (·.coerce v i) :=
  ⟨coerce_leveled v i, (Emit.endingBelow bodies (i.rank + 1)).coerce v i (Nat.lt_succ_self _)⟩

theorem extract_tame (v : Operand) (id : ShapeId) (i : Info) :
    Emit.Tame s keys base (·.extract v id i) :=
  ⟨extract_leveled v id i, (Emit.endingBelow bodies (i.rank + 1)).extract v id i
    (Nat.lt_succ_self _)⟩

theorem coerced_tame (v : Operand) (i : Info) : Emit.Tame s keys base (·.coerced v i) :=
  coerced_of (coerce_tame bodies v i).ending

theorem argument_tame (arg : Option Operand) (i : Info) :
    Emit.Tame s keys base (·.argument arg i) :=
  (Emit.endingBelow bodies (i.rank + 1)).argument arg (Nat.lt_succ_self _)

end Lowering

end ShapeCompiler
