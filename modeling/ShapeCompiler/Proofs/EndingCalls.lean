import ShapeCompiler.Proofs.Coercions
import ShapeCompiler.Proofs.EndingForms
import ShapeCompiler.Proofs.Thunks

/-!
# Calls, instances and properties come to an end

If every body that is asked for comes to an end, then so does what asks for bodies and gives
arguments their forms.

* `callDecl_tame`, `callValue_tame`: calls;
* `tableOf_ending`, `installTable_tame`: method tables;
* `runConstructor_tame`: instances;
* `readProperty_tame`, `writeProperty_tame`: properties; what an optional value holds has fewer
  shapes before it.
-/

namespace ShapeCompiler

open Source Code Work

/-! ## Method tables -/

namespace Compile

variable {s : Setup} {keys : List FunctionKey} {base start w : Work} [s.TypesEnd]
  (bodies : ∀ spec, Compile.Ending s keys base (·.compile spec))

instance openTable_flat (root : DeclId) (array : TyId) (length : Nat)
    (methods : List (Name × DeclId)) :
    Flat s (openTable root array length methods) := by
  unfold openTable
  infer_instance

include bodies

theorem defineThunk_ending (thunk : FuncId) (root m : DeclId) :
    Ending s keys base fun l => defineThunk l thunk root m :=
  .bind (Lowering.body_leveled _ _ _) (Lowering.body_ending bodies _ _ _) fun _ => .flat

/-- Functions that need a body get it one after the other. -/
theorem defineThunks_end (root : DeclId) (pairs : List ((FuncId × Bool) × Name × DeclId))
    (before : base.Reaches s start) (there : Reaches s start w) (moment : Moment s w)
    (pending : Pending start w (pairs.map (·.1))) :
    ¬ Bottomless s keys (fun l => pairs.forM fun ((thunk, pending), (_, m)) => do
      if pending then defineThunk l thunk root m) w := by
  induction pairs generalizing w with
  | nil => exact not_bottomless_flat (m := pure PUnit.unit)
  | cons pair pairs ih =>
    obtain ⟨⟨thunk, isPending⟩, n, m⟩ := pair
    have first : Ending s keys base fun l => if isPending then defineThunk l thunk root
        m else pure () :=
      .ite (defineThunk_ending bodies thunk root m) .flat
    refine not_bottomless_bind (fun h => .ite (Emit.defineThunk_below h _ _ _) (.refl _))
      (first w (before.trans there) moment) fun depth _ w₁ ran => ?_
    obtain ⟨there₁, later, pending₁⟩ := Since.of_ok
      (definePending_since (Lowering.ofDepth_walks depth)
      root n m there moment pending) ran
    exact ih there₁ (moment.later later) pending₁

/-- The table is recorded before the functions in it get their bodies. -/
theorem emitTable_end {root : DeclId} {array : TyId} {length : Nat} {methods : List (Name × DeclId)}
    {c : ClassDecl} (there : base.Reaches s w) (moment : Moment s w)
    (virtuals : s.program.namedVirtuals root = .ok methods)
    (isClass : s.program.classDecl root = .ok c)
    (isLength : length = c.tableSize.getD (s.config.tableHeader + methods.length))
    (enough : s.config.tableHeader + methods.length ≤ length)
    (own : s.resolver.tableSymbol s.program root = none) (new : w.tables.get? root = none)
    (isArray : w.code.types.get array = .array .ptr length) :
    ¬ Bottomless s keys (fun l => emitTable l root array length methods) w := by
  simp only [emitTable_eq]
  refine not_bottomless_after fun found w₁ ran => ?_
  obtain ⟨table, entries⟩ := found
  obtain ⟨there₁, _, _, _, _, _, pending⟩ :=
    (openTable_ends moment virtuals isClass isLength enough own new isArray).of_ok ran
  refine not_bottomless_bind (fun h => .forM (fun _ =>
    .ite (Emit.defineThunk_below h _ _ _) (.refl _)) _)
    (defineThunks_end bodies root _ there there₁ (moment.later there₁.later) pending)
      fun _ _ _ _ => ?_
  exact not_bottomless_flat (m := pure table)

theorem tableOf_ending (root : DeclId) : Ending s keys base fun l => tableOf l root := by
  intro w there moment
  refine not_bottomless_after fun _ w₀ got => ?_
  cases got
  split
  · exact not_bottomless_flat
  rename_i new
  refine not_bottomless_after fun _ w₀ got => ?_
  cases got
  refine not_bottomless_after fun methods w₁ asked => ?_
  obtain ⟨isSame, virtuals⟩ := of_asks_ok asked
  subst isSame
  refine not_bottomless_after fun c w₁ asked => ?_
  obtain ⟨isSame, isClass⟩ := of_asks_ok asked
  subst isSame
  dsimp only
  split
  · exact not_bottomless_flat (m := invalid (α := MethodTable) _)
  rename_i enough
  refine not_bottomless_after fun array w₁ ran => ?_
  have interned (length : Nat) : Ends s w (types (·.array .ptr length)) fun array w' =>
      w'.code.types.get array = .array .ptr length ∧ w'.tables = w.tables :=
    intern_ends (fun _ => rfl) ⟨TypeTable.get_intern _ _, rfl⟩
  obtain ⟨there₁, isArray, same⟩ := (interned _).of_ok ran
  cases symbol : s.resolver.tableSymbol s.program root with
  | none =>
    exact emitTable_end bodies (there.trans there₁) (moment.later there₁.later) virtuals isClass rfl
      (Nat.le_of_not_lt enough) symbol (same ▸ new) isArray
  | some name =>
    exact not_bottomless_after fun _ _ _ => not_bottomless_after fun _ _ _ =>
      not_bottomless_flat (m := pure _)

end Compile

namespace Emit

/-! ## What an optional union holds -/

theorem info_of_settled {r : Operand} {t : Info} {id : ShapeId} (h : r.Settled t)
    (isUnion : t = .union id) : r.info = .union id := by
  cases h with
  | known => exact isUnion
  | _ => cases isUnion

/-- A value that is given the form it has stays as it is. -/
theorem coerce_self_keeps (depth : Nat) (value : ValueId) (i : Info) :
    Results ((Lowering.ofDepth depth).coerce (.boxed value i) i) fun r => r.info = i := by
  cases depth with
  | zero => exact .fail _
  | succ depth =>
    have same : (Lowering.ofDepth (depth + 1)).coerce (.boxed value i) i = pure (.boxed value i) :=
      coerce_self _ (.boxed value i)
    rw [same]
    exact .pure rfl

theorem extractOptional_own (depth : Nat) {u : UnionShape} (ptr : ValueId) {i : Info}
    (isMember : u.memberInfo = i) :
    Results (extractOptional (.ofDepth depth) u ptr i) fun r => r.info = i := by
  subst isMember
  have rest (fits : Bool) : Results (if fits then (do
      let value ← loadField u.record ptr 1 "value"
      (Lowering.ofDepth depth).coerce (.boxed value u.memberInfo) u.memberInfo) else
        unknownMember u u.memberInfo) fun r => r.info = u.memberInfo :=
    .ite (.bind fun _ => coerce_self_keeps depth _ _) (.bind fun _ => .fail _)
  unfold extractOptional
  dsimp only
  split
  · exact .bind rest
  · exact .bind rest

/-- What an optional union holds is known as its member. -/
theorem of_unwrap_ok {s : Setup} {w w' : Work} {shape : ShapeId} {u : UnionShape}
    {v inner : Operand}
    {depth : Nat} {f f' : Frame} (known : w.registry.shape? shape = some (.union u))
    (optional : u.optional) (lower : u.memberInfo.rank ≤ shape.raw)
    (ran : unwrap (.ofDepth depth) v shape f s w = .ok (inner, f') w') :
    inner.info = u.memberInfo := by
  obtain ⟨u₁, f₁, w₁, asked, ran⟩ := of_bind_ok ran
  obtain ⟨rfl, isShape⟩ := Compile.of_unionShape_ok (of_lift_ok asked).2
  cases isShape.symm.trans known
  obtain ⟨u₂, f₂, w₂, asked, ran⟩ := of_bind_ok ran
  obtain ⟨rfl, isShape⟩ := Compile.of_unionShape_ok (of_lift_ok asked).2
  cases isShape.symm.trans known
  cases isMember : u.memberInfo with
  | union wider =>
    have apart : wider ≠ shape := by
      rintro rfl
      rw [isMember] at lower
      exact absurd lower (Nat.not_succ_le_self _)
    simp only [isMember, if_neg apart] at ran
    exact info_of_settled (unionInit_settles f₂ s w₂ inner f' w' ran) rfl
  | _ =>
    simp only [isMember] at ran
    obtain ⟨ptr, f₃, w₃, _, ran⟩ := of_bind_ok ran
    rw [if_pos optional] at ran
    exact extractOptional_own depth ptr isMember f₃ s w₃ inner f' w' ran

variable {s : Setup} {keys : List FunctionKey} {base w : Work} [s.TypesEnd]
  (bodies : ∀ spec, Compile.Ending s keys base (·.compile spec))

include bodies

/-! ## Closures and calls -/

theorem writeArgs_tame (e : Environment) (ptr : ValueId) (params : List Info)
    (args : List Operand) :
    Tame s keys base fun l => writeArgs l e ptr params args := by
  unfold writeArgs
  refine .forM (fun i => ?_) _
  exact .bind (Lowering.argument_tame bodies _ _) fun _ => .after (newCell_walks _ _) fun _ =>
    .flat (storeField_walks _ _ _ _)

theorem functionValue_tame (d : DeclId) : Tame s keys base fun l => functionValue l d where
  below h := functionValue_below h d
  walks hl := functionValue_walks hl d
  ending := by
    have value (f : FunctionDecl) : Ending s keys base fun l => (do
        if f.body.isNone then Compile.unsupported (.nativeFunctionValue (← Compile.declName d))
        else if f.isGeneric then makeLazy d
        else return (← closureOf (← l.body (.function d) none []) d none).operand : Emit Operand) :=
      .ite .flat (.ite .flat (.bind (Lowering.body_tame bodies _ _ _) fun _ => .flat))
    refine .asks fun f => ?_
    dsimp only
    split
    · exact .after (recordSites_walks _) fun _ => value f
    · exact value f

theorem methodClosure_ending (m : DeclId) (cls : Option DeclId) (given : ValueId) :
    Ending s keys base fun l => methodClosure l m cls given :=
  .after (.lift (Compile.resolve_walks _ _ _)) fun _ => .asks fun _ =>
    .ite .flat (.bind (Lowering.body_tame bodies _ _ _) fun _ => .flat)

theorem boundMethod_ending (object : Operand) (cls m : DeclId) :
    Ending s keys base fun l => boundMethod l object cls m :=
  .after (boxed_walks _) fun _ => methodClosure_ending bodies m _ _

theorem staticMethodValue_ending (m : DeclId) :
    Ending s keys base fun l => staticMethodValue l m :=
  .draft fun _ => methodClosure_ending bodies m _ _

theorem closureCall_ending (c : ClosureValue) (args : List Operand) :
    Ending s keys base fun l => closureCall l c args :=
  .after (callShape_walks _ _) fun _ => .after (.lift (Compile.env_walks _)) fun _ =>
    .after (.lift Compile.runtime_walks) fun _ => .after (loadField_walks _ _ _ _) fun _ =>
      .bind (writeArgs_tame bodies _ _ _ _) fun _ => .flat

/-- The closure is made of a body that was just recorded. -/
theorem lazyCall_ending (f : Operand) (d : DeclId) (args : List Operand) :
    Ending s keys base fun l => lazyCall l f d args := by
  refine .known_bind (Lowering.body_tame bodies (.function d) none _)
    fun depth c f₀ w f₁ w₁ ran there reached moment => ?_
  obtain ⟨key, _, _, known⟩ :=
    (((Lowering.ofDepth_walks depth).body moment _ _ _).of_ok (of_lift_ok ran).2).2
  exact .after_ends (fun after moment grounded =>
    (closureFromLazy_ends moment grounded (after.made_stays ⟨key, known⟩) f d none).mono
      fun _ _ _ onward => onward.grounded)
    fun closure => (closureCall_ending bodies closure args).later (there.trans reached)

theorem callValue_tame (f : Operand) (args : List Operand) :
    Tame s keys base fun l => callValue l f args where
  below h := callValue_below h f args
  walks hl := callValue_walks hl f args
  ending := by
    unfold callValue
    split
    · exact .after (boxed_walks _) fun _ => closureCall_ending bodies _ _
    · exact lazyCall_ending bodies _ _ _
    · exact .after (boxed_walks _) fun _ => closureCall_ending bodies _ _
    · exact .flat

theorem callExternal_tame (d : DeclId) (symbol : String) (object : Option Operand)
    (args : List Operand) : Tame s keys base fun l => callExternal l d symbol object args where
  below h := callExternal_below h d symbol object args
  walks hl := callExternal_walks hl d symbol object args
  ending := by
    refine .asks fun f => .after (.mapM boxed_walks _) fun first => .bind (.mapM (fun _ => ?_) _)
      fun _ => ?_
    · dsimp only
      exact .after (.asks _) fun _ => .after (externalInfo_walks _ _) fun _ =>
        Lowering.argument_tame bodies _ _
    · dsimp only
      exact .flat

theorem callCompiled_tame (c : CompiledFunction) (this : Option ValueId) (args : List Operand) :
    Tame s keys base fun l => callCompiled l c this args where
  below h := callCompiled_below h c this args
  walks hl := callCompiled_walks hl c this args
  ending := .after (.lift (Compile.env_walks _)) fun _ => .draft fun _ =>
    .bind (writeArgs_tame bodies _ _ _ _) fun _ => .flat

theorem callDecl_tame (d : DeclId) (on : Option Receiver) (args : List Operand) :
    Tame s keys base fun l => callDecl l d on args where
  below h := callDecl_below h d on args
  walks hl := callDecl_walks hl d on args
  ending := .asks fun _ => .after (.lift (Compile.resolve_walks _ _ _)) fun _ =>
    .ite (callExternal_tame bodies _ _ _ _).ending (.ite .flat
      (.bind (Lowering.body_tame bodies _ _ _) fun _ => .after (receiverValue_walks _ _) fun _ =>
        (callCompiled_tame bodies _ _ _).ending))

/-! ## Instances -/

theorem tableOf_tame (root : DeclId) : Tame s keys base fun l => liftM (Compile.tableOf l root) :=
  .lift ⟨fun h => tableOf_below h root, fun hl => Compile.tableOf_walks hl root⟩
    (Compile.tableOf_ending bodies root)

theorem placeTable_ending {cls : DeclId} {t : MethodTable} {overrides : List (Name × DeclId × Nat)}
    (overriding : Overriding s cls t overrides) (obj : ValueId) :
    Ending s keys base fun l => placeTable l obj cls t overrides := by
  refine .after (.lift (Compile.layoutOf_walks cls)) fun layout => .draft fun table => .ite .flat ?_
  refine .after (.lift (Compile.array_walks _ _)) fun own => .draft fun copy =>
    .after (copyTable_walks _ _ _) fun _ => .after (storeField_walks _ _ _ _) fun _ =>
      (Tame.forM_mem _ ?_).ending
  rintro ⟨⟨n, m, slot⟩, closureSlot⟩ inside
  obtain ⟨atLeast, here⟩ := List.mk_mem_zipIdx_iff_le_and_getElem?_sub.mp inside
  obtain ⟨k, rfl⟩ := Nat.exists_eq_add_of_le atLeast
  rw [Nat.add_sub_cancel_left] at here
  exact {
    below := fun h => patchSlot_below h _ _ _ _ _ _ _
    walks := fun hl => patchSlot_walks hl overriding here obj copy
    ending := .bind (Lowering.body_tame bodies _ _ _) fun _ => .flat }

theorem installTable_tame (obj : ValueId) (cls : DeclId) :
    Tame s keys base fun l => installTable l obj cls where
  below h := installTable_below h obj cls
  walks hl := installTable_walks hl obj cls
  ending := by
    refine .answered fun found isRoot => ?_
    cases found with
    | none => exact .flat (m := pure ())
    | some root =>
      refine .known_bind (tableOf_tame bodies root)
        fun depth t f w f₁ w₁ ran there reached moment => ?_
      obtain ⟨_, rfl, fits, _⟩ :=
        (Compile.tableOf_ends (Lowering.ofDepth_walks depth) moment root).of_ok (of_lift_ok ran).2
      exact .answered fun chain isChain => .after (checkOverrides_walks t chain) fun _ =>
        .answered fun overrides listed => (placeTable_ending bodies
          ⟨isRoot, fits, chain, isChain, listed⟩ obj).later (there.trans reached)

theorem virtualSlot_tame (cls m : DeclId) : Tame s keys base fun l => virtualSlot l cls m where
  below h := virtualSlot_below h cls m
  walks hl := virtualSlot_walks hl cls m
  ending := by
    refine .asks fun root => ?_
    cases root with
    | none => exact .flat (m := pure none)
    | some root =>
      exact .asks fun _ => .asks fun _ => .ite
        (.bind (tableOf_tame bodies root) fun _ => .flat) .flat

theorem virtualBody_tame (cls m : DeclId) :
    Tame s keys base fun l => liftM (virtualBody l cls m) :=
  .lift ⟨fun h => virtualBody_below h cls m, fun hl => virtualBody_walks hl cls m⟩
    (.after (Compile.resolve_walks _ _ _) fun _ => .ite .flat
      (.bind (Lowering.body_leveled _ _ _) (Lowering.body_ending bodies _ _ _) fun _ => .flat))

theorem virtualCall_ending (object : Operand) (cls m : DeclId) (slot : Nat) (args : List Operand) :
    Ending s keys base fun l => virtualCall l object cls m slot args := by
  refine .asks fun f => .bind (virtualBody_tame bodies cls m) fun c =>
      .after (boxed_walks object) fun this =>
    .bind (.mapM (fun _ => ?_) _) fun values => ?_
  · dsimp only
    split
    · exact .after (.pure _) fun _ => Lowering.argument_tame bodies _ _
    · exact .after (.asks _) fun _ => .after (closedInfoOf_walks _) fun _ =>
        Lowering.argument_tame bodies _ _
  · dsimp only
    split <;> exact .flat

theorem runConstructor_tame (ctorClass cls : DeclId) (this : ValueId) (args : List Operand) :
    Tame s keys base fun l => runConstructor l ctorClass cls this args where
  below h := runConstructor_below h ctorClass cls this args
  walks hl := runConstructor_walks hl ctorClass cls this args
  ending := by
    refine .after (.lift (constructorSubject_walks _)) fun subject => ?_
    cases subject with
    | none => exact .flat (m := pure ())
    | some subject =>
      refine .after (.lift (externalConstructor?_walks _ _ _)) fun external => ?_
      split
      · exact (callExternal_tame bodies _ _ _ _).discard.ending
      · exact .bind (Lowering.body_tame bodies _ _ _) fun _ =>
          (callCompiled_tame bodies _ _ _).discard.ending

theorem construct_ending (cls : DeclId) (args : List Operand) :
    Ending s keys base fun l => construct l cls args := by
  have rest (obj : ValueId) : Ending s keys base fun l => (do
      runConstructor l cls cls obj args
      return .boxed obj (.instanceOf cls) : Emit Operand) :=
    .bind (runConstructor_tame bodies cls cls obj args) fun _ => .flat
  refine .after (.lift (Compile.layoutOf_walks cls)) fun layout => .draft fun obj => ?_
  exact .ite (.bind (installTable_tame bodies obj cls) fun _ => rest obj) (rest obj)

/-! ## Properties -/

theorem readInstance_ending (object : Operand) (cls : DeclId) (n : Name) :
    Ending s keys base fun l => readInstance l object cls n := by
  refine .asks fun chain => .after (.lift (findMember_walks _ _ _)) fun getter => ?_
  split
  · exact (callDecl_tame bodies _ _ _).ending
  · refine .after (.lift (Compile.fieldRef_walks _ _)) fun field => ?_
    split
    · exact .flat
    · refine .after (.lift (findMember_walks _ _ _)) fun method => ?_
      split
      · exact boundMethod_ending bodies _ _ _
      · exact .flat

theorem unwrap_tame (v : Operand) (shape : ShapeId) :
    Tame s keys base fun l => unwrap l v shape where
  below h := unwrap_below h v shape
  walks hl := unwrap_walks hl v shape
  ending := .after (.lift (Compile.unionShape_walks _)) fun u =>
    .of_next (n := fun l => l.extract v shape u.memberInfo) (fun _ => rfl)
      (Lowering.extract_tame bodies v shape _).ending

omit bodies [s.TypesEnd] in
theorem of_optionalShape?_ok {info : Info} {shape : ShapeId} {w' : Work}
    (ran : optionalShape? info s w = .ok (some shape) w') :
    info = .union shape ∧ ∃ u, w' = w ∧ w.registry.shape? shape = some (.union u) ∧ u.optional := by
  cases info with
  | union id =>
    obtain ⟨u, w₁, asked, done⟩ := Compile.of_bind_ok ran
    obtain ⟨rfl, known⟩ := Compile.of_unionShape_ok asked
    by_cases optional : u.optional
    · rw [if_pos optional] at done
      cases done
      exact ⟨rfl, u, rfl, known, optional⟩
    · rw [if_neg optional] at done
      cases done
  | _ => cases ran

/-- What an optional value holds has fewer shapes before it. -/
theorem optional_ending {info : Info} {k : Lowering → Option ShapeId → Emit Operand}
    {g : Lowering → Operand → Emit Operand} (object : Operand)
    (some : ∀ shape l, k l (some shape) = unwrap l object shape >>= g l)
    (level : ∀ inner, Leveled s (g · inner)) (none : Tame s keys base (k · none))
    (fewer : ∀ inner : Operand, inner.info.rank < info.rank → Ending s keys base (g · inner)) :
    Ending s keys base fun l => (liftM (optionalShape? info) : Emit _) >>= k l := by
  refine .seen_bind (optionalShape?_walks info)
    (fun {l} hl => .bind (.lift (optionalShape?_walks info))
    fun found => ?_) fun found w w' before after confined ran => ?_
  · cases found with
    | none => exact none.walks hl
    | some shape =>
      rw [some]
      exact .bind (unwrap_walks hl object shape) fun inner => (level inner).walks hl
  cases found with
  | none => exact none.ending.later (before.trans after)
  | some shape =>
    obtain ⟨rfl, u, rfl, known, optional⟩ := of_optionalShape?_ok ran
    have lower : u.memberInfo.rank ≤ shape.raw := UnionShape.memberInfo_rank_le
      fun slot inside => confined.founded shape _ known slot.info (List.mem_map_of_mem inside)
    simp only [some]
    refine .known_bind (unwrap_tame (fun spec => (bodies spec).later before) object shape)
      fun depth inner f w₁ f₁ w₂ ran there reached moment => ?_
    have isMember := of_unwrap_ok (Registry.shape?_of_prefix there.later.shapes known)
      optional lower ran
    refine (fewer inner ?_).later (before.trans (there.trans reached))
    rw [isMember]
    exact Nat.lt_succ_of_le lower

/-- By induction on the shapes before the object. -/
theorem readProperty_ending (v : Operand) (n : Name) : Ending s keys base (·.readProperty v n) := by
  induction rank : v.info.rank using Nat.strong_induction_on generalizing v with
  | _ m ih =>
    subst rank
    refine .next (m := fun l => readProperty l v n) (fun _ => rfl) ?_
    unfold readProperty toBoxed
    simp only [bind_assoc, pure_bind]
    refine .after (boxed_walks v) fun p => ?_
    split
    · exact readInstance_ending bodies _ _ _
    · exact .flat
    · exact optional_ending (g := fun l inner => l.readProperty inner n) bodies (.boxed p v.info)
        (fun _ _ => rfl) (fun inner => ⟨fun h => h.readProperty inner n, fun hl =>
          hl.readProperty inner n⟩)
        (.flat (m := readField (.boxed p v.info) n) (readField_walks _ n)) fun inner fewer =>
          ih _ fewer inner rfl

theorem writeField_tame (object : Operand) (n : Name) (value : Operand) :
    Tame s keys base fun l => writeField l object n value where
  below h := writeField_below h object n value
  walks hl := writeField_walks hl object n value
  ending := by
    refine .after (.lift (Compile.fieldRef_walks _ _)) fun field => ?_
    split
    · exact .flat
    · exact .bind (Lowering.coerced_tame bodies _ _) fun _ => .flat

/-- By induction on the shapes before the object. -/
theorem writeProperty_ending (v : Operand) (n : Name) (value : Operand) :
    Ending s keys base (·.writeProperty v n value) := by
  induction rank : v.info.rank using Nat.strong_induction_on generalizing v with
  | _ m ih =>
    subst rank
    refine .next (m := fun l => writeProperty l v n value) (fun _ => rfl) ?_
    unfold writeProperty toBoxed
    simp only [bind_assoc, pure_bind]
    refine .after (boxed_walks v) fun p => .after (.lift (setter?_walks _ _)) fun setter => ?_
    split
    · exact .after (boxed_walks _) fun _ => .bind
        (callDecl_tame bodies _ _ _).discard fun _ => .flat
    · exact optional_ending (g := fun l inner => l.writeProperty inner n value) bodies
        (.boxed p v.info)
        (fun _ _ => rfl)
        (fun inner => ⟨fun h => h.writeProperty inner n value, fun hl =>
          hl.writeProperty inner n value⟩)
        (writeField_tame bodies (.boxed p v.info) n value) fun inner fewer => ih _ fewer inner rfl

theorem readProperty_tame (v : Operand) (n : Name) : Tame s keys base (·.readProperty v n) where
  below h := h.readProperty v n
  walks hl := hl.readProperty v n
  ending := readProperty_ending bodies v n

theorem writeProperty_tame (v : Operand) (n : Name) (value : Operand) :
    Tame s keys base (·.writeProperty v n value) where
  below h := h.writeProperty v n value
  walks hl := hl.writeProperty v n value
  ending := writeProperty_ending bodies v n value

/-! ## Members of the base class and of the class itself -/

theorem readParent_ending (n : Name) : Ending s keys base fun l => readParent l n := by
  refine .after memberOwner_walks fun owner => .after receiver_walks fun this => .get_bind fun f =>
    .asks fun chain => .after (.lift (findMember_walks _ _ _)) fun getter => ?_
  split
  · exact (callDecl_tame bodies _ _ _).ending
  · refine .after (.lift (findMember_walks _ _ _)) fun method => ?_
    split
    · exact boundMethod_ending bodies _ _ _
    · exact readProperty_ending bodies _ _

theorem callParentMethod_ending (n : Name) (args : List Operand) :
    Ending s keys base fun l => callParentMethod l n args := by
  refine .after memberOwner_walks fun owner => .asks fun chain =>
    .after (.lift (findMember_walks _ _ _)) fun method => ?_
  split
  · exact .flat
  · exact .after receiver_walks fun _ => .get_bind fun _ => (callDecl_tame bodies _ _ _).ending

theorem storeStatic_tame (g : GlobalId) (info : Info) (value : Operand) :
    Tame s keys base fun l => storeStatic l g info value where
  below h := storeStatic_below h g info value
  walks hl := storeStatic_walks hl g info value
  ending := .bind (Lowering.coerced_tame bodies _ _) fun _ => .flat

theorem readStatic_tame (cls : DeclId) (n : Name) :
    Tame s keys base fun l => readStatic l cls n where
  below h := readStatic_below h cls n
  walks hl := readStatic_walks hl cls n
  ending := by
    refine .asks fun chain => .after (.lift (findStatic_walks _ _)) fun prop => ?_
    cases prop with
    | some prop =>
      dsimp only
      exact .flat
    | none =>
      refine .after (.lift (findStaticMethod_walks _ _)) fun method => ?_
      cases method with
      | some m => exact staticMethodValue_ending bodies m
      | none =>
        dsimp only
        exact .flat

theorem writeStatic_ending (cls : DeclId) (n : Name) (value : Operand) :
    Ending s keys base fun l => writeStatic l cls n value := by
  refine .asks fun chain => .after (.lift (findStatic_walks _ _)) fun prop => ?_
  cases prop with
  | some prop =>
    exact .after (staticVariable_walks _) fun _ => (storeStatic_tame bodies _ _ _).ending
  | none =>
    dsimp only
    exact .flat

theorem callStatic_ending (cls : DeclId) (n : Name) (args : List Operand) :
    Ending s keys base fun l => callStatic l cls n args := by
  refine .asks fun chain => .after (.lift (findStaticMethod_walks _ _)) fun method => ?_
  cases method with
  | some m => exact (callDecl_tame bodies _ _ _).ending
  | none => exact .bind (readStatic_tame bodies _ _) fun _ => (callValue_tame bodies _ _).ending

/-! ## Variables -/

theorem readName_tame (n : Name) : Tame s keys base fun l => readName l n where
  below h := readName_below h n
  walks hl := readName_walks hl n
  ending := by
    refine .after (.text n) fun text => .after (lookup_walks n) fun binding => ?_
    split
    · exact .flat
    · exact .flat
    · exact (functionValue_tame bodies _).ending
    · exact .flat
    · exact .flat

theorem assignName_tame (n : Name) (v : Operand) : Tame s keys base fun l => assignName l n v where
  below h := assignName_below h n v
  walks hl := assignName_walks hl n v
  ending := .after (variablePlace_walks n) fun _ => .after (checkRebinding_walks _ _ _) fun _ =>
    .bind (Lowering.coerced_tame bodies _ _) fun _ => .flat

end Emit

end ShapeCompiler
