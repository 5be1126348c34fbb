import ShapeCompiler.Proofs.Regions

/-!
# Values that are used are there

Every part of the compiler that computes a value, up to coercions and calls, is sound: it uses
values that are there, and what it gives is there.
-/

namespace ShapeCompiler

open Source Code Work

/-- The steps are sound, and those of some level. -/
structure Lowering.Sound (s : Setup) (l : Lowering) : Prop where
  walks : l.Walks s
  level : ∃ depth, l = .ofDepth depth
  compile : ∀ spec {w w' : Work} {c : CompiledFunction}, w.Sound s → spec.Typed s w →
    l.compile spec s w = .ok c w' → Proceeds s w w' ∧ w'.Sound s
  expr : ∀ e {U : ValueId → Prop}, Emit.Sound s U (l.expr e) fun v => [v.value]
  block : ∀ stmts {U : ValueId → Prop}, Emit.Flows s U (l.block stmts)
  coerce : ∀ (v : Operand) info {U : ValueId → Prop}, U v.value →
    Emit.Sound s U (l.coerce v info) fun v => [v.value]
  extract : ∀ (v : Operand) shape info {U : ValueId → Prop}, U v.value →
    Emit.Sound s U (l.extract v shape info) fun v => [v.value]
  readProperty : ∀ (v : Operand) n {U : ValueId → Prop}, U v.value →
    Emit.Sound s U (l.readProperty v n) fun v => [v.value]
  writeProperty : ∀ (v : Operand) n (value : Operand) {U : ValueId → Prop},
    U v.value → U value.value →
    Emit.Sound s U (l.writeProperty v n value) fun v => [v.value]

namespace Emit

variable {s : Setup} {α β : Type} {U : ValueId → Prop} {gives : α → List ValueId}

/-! ## Questions -/

theorem Sound.asks (question : Program → Except ProgramError α) :
    Sound s U (liftM (Compile.asks question) : Emit α) fun _ => [] :=
  .quiet (Compile.asks_walks question) (Compile.asks_quiet question)

theorem Sound.program : Sound s U (liftM Compile.program : Emit Program) fun _ => [] :=
  .quiet Compile.program_walks Compile.program_quiet

theorem Sound.text (n : Name) : Sound s U (liftM (Compile.text n) : Emit String) fun _ => [] :=
  .quiet (Compile.text_walks n) (Compile.text_quiet n)

theorem Sound.declName (d : DeclId) :
    Sound s U (liftM (Compile.declName d) : Emit String) fun _ => [] :=
  .quiet (Compile.declName_walks d) (Compile.declName_quiet d)

theorem Sound.infoName (i : Info) :
    Sound s U (liftM (Compile.infoName i) : Emit String) fun _ => [] :=
  .quiet (Compile.infoName_walks i) (Compile.infoName_quiet i)

theorem Sound.mismatch (expected found : Info) :
    Sound s U (liftM (Compile.mismatch expected found : Compile α) : Emit α) gives :=
  ⟨fun _ _ ran => by cases ran⟩

theorem infoOf_sound (t : TypeId) : Sound s U (infoOf t) fun _ => [] :=
  .get_bind fun _ => .quiet (Compile.infoOf_walks _ t) (Compile.infoOf_quiet _ t)

theorem closedInfoOf_sound (t : TypeId) : Sound s U (closedInfoOf t) fun _ => [] :=
  Sound.program.andThen fun _ => .ite (.pure (by simp)) (infoOf_sound t)

/-- The cell that a name means. -/
def cellOf : Option Binding → List ValueId
  | some (.cell ptr _) => [ptr]
  | _ => []

/-- A name means a cell of this body; those at the top mean none. -/
theorem lookup_sound (n : Name) : Sound s U (lookup n) cellOf := by
  refine ⟨fun {w w' f f' g b} stands uses ran => ?_⟩
  cases ran
  refine ⟨g, .refl stands, fun v isGiven => ?_⟩
  cases here : f.scope.lookup n with
  | some binding =>
    simp only [here] at isGiven
    cases binding with
    | cell ptr info =>
      obtain rfl : v = ptr := by simpa [cellOf] using isGiven
      exact stands.holds v (.name here)
    | _ => simp [cellOf] at isGiven
  | none =>
    simp only [here] at isGiven
    change v ∈ cellOf (w.moduleScope.lookup n) at isGiven
    cases top : w.moduleScope.lookup n with
    | none => simp [top, cellOf] at isGiven
    | some binding =>
      cases binding with
      | cell ptr info => exact absurd top (stands.sound.names n ptr info)
      | _ => simp [top, cellOf] at isGiven

/-! ## Forms -/

theorem boxed_sound {v : Operand} (h : U v.value) : Sound s U (boxed v) fun p => [p] := by
  unfold boxed
  split
  · apply (Sound.write (.alloc _ _)).bind
    intro p
    apply (Sound.write (.store (by simp [h]) (by simp))).andThen
    exact fun _ => .pure (by simp)
  · exact .pure (by simp [h])

theorem toBoxed_sound {v : Operand} (h : U v.value) : Sound s U (toBoxed v) fun v => [v.value] :=
  (boxed_sound h).bind fun _ => .pure (by simp [Operand.boxed])

theorem raw_sound {v : Operand} (h : U v.value) : Sound s U (raw v) fun x => [x] := by
  unfold raw
  split
  · exact .pure (by simp [h])
  · exact .write (.load _ _ h)
  · exact (Sound.infoName _).andThen fun _ => .fail _

theorem nullValue_sound (info : Info) : Sound s U (nullValue info) fun v => [v.value] :=
  (Sound.write (.plain _)).bind fun _ => .pure (by simp [Operand.boxed])

theorem newCell_sound {value : ValueId} (name : String) (h : U value) :
    Sound s U (newCell value name) fun p => [p] := by
  apply (Sound.write (.alloc _ _)).bind
  intro p
  apply (Sound.write (.store (by simp [h]) (by simp))).andThen
  exact fun _ => .pure (by simp)

theorem loadField_sound {ptr : ValueId} (record : TyId) (index : Nat) (name : String) (h : U ptr) :
    Sound s U (loadField record ptr index name) fun p => [p] :=
  (Sound.write (.fieldAddr _ _ _ h)).bind fun _ => .write (.load _ _ (by simp))

theorem storeField_sound {ptr value : ValueId} (record : TyId) (index : Nat) (h : U ptr)
    (h' : U value) : Sound s U (storeField record ptr index value) fun _ => [] :=
  (Sound.write (.fieldAddr _ _ _ h)).bind fun _ => .write (.store (by simp [h']) (by simp))

theorem callPtr_calling (func : FuncId) (args : List ValueId) (name : String)
    (h : ∀ v ∈ args, U v) :
    Calling s func args.length U (callPtr func args name) fun p => [p] := by
  apply (Calling.write (.call _ _ _ h ⟨rfl, rfl⟩)).bind
  intro result
  cases result with
  | some v => exact .pure (by simp)
  | none => exact .write (.plain _)

/-- What declarations can see is recorded; the frame stays. -/
theorem recordSites_sound (decls : List DeclId) : Sound s U (recordSites decls) fun _ => [] := by
  refine ⟨fun {w w' f f' g a} stands uses ran => ?_⟩
  have later := (((recordSites_walks decls).ends stands.sound.moment stands.grounded).of_ok
    ran).1.later
  have recorded {P : Scope → Prop} (seen : P f.scope) :
    ∀ (ds : List DeclId) (w w' : Work) (f' : Frame),
      (∀ d site, w.sites.get? d = some site → P site.scope) →
      (ds.forM fun d => liftM (Compile.recordSite d f.site) : Emit PUnit) f s w = .ok (a, f') w' →
        f' = f ∧ ∃ sites, w' = { w with sites } ∧ ∀ d site, sites.get? d = some site →
            P site.scope := by
    intro ds
    induction ds with
    | nil =>
      intro w w' f' before ran
      cases ran
      exact ⟨rfl, w.sites, rfl, before⟩
    | cons d ds ih =>
      intro w w' f' before ran
      obtain ⟨_, f₁, w₁, ran₁, ran₂⟩ := of_bind_ok ran
      obtain ⟨rfl, made⟩ := of_lift_ok ran₁
      cases made
      obtain ⟨same, sites, rfl, rest⟩ := ih _ _ _ (Table.forall_insert before seen) ran₂
      exact ⟨same, sites, rfl, rest⟩
  obtain ⟨rfl, sites, rfl, all⟩ := recorded (P :=
    fun scope => scope.Declares s.program ∧ scope.Typed s w)
    ⟨stands.declares, stands.typed⟩ decls w w' f'
    (fun d site known => ⟨stands.sound.sites d site known, stands.sound.typed.sites d site known⟩)
      ran
  have course : Course s w { w with sites } := Turn.course (.aside rfl rfl)
  have sound : Work.Sound s { w with sites } :=
    stands.sound.aside (stands.sound.moment.later later) rfl rfl stands.sound.made
      stands.sound.names stands.sound.reachable stands.sound.declares
        (fun d site known => (all d site known).1)
      (stands.sound.typed.recorded fun d site known => (all d site known).2)
  have proceeds : Proceeds s w { w with sites } := .of_same later course rfl fun _ _ known => known
  exact ⟨g, ⟨proceeds, sound, rfl, .refl stands.fits stands.isOpen, .refl f'⟩, by simp⟩

theorem refreshSites_sound : Sound s U refreshSites fun _ => [] :=
  .get_bind fun _ => recordSites_sound _

theorem receiver_sound : Sound s U receiver fun v => [v.value] := by
  apply Sound.get_bind
  intro f
  split
  · rename_i v here
    exact .pure (by simp [Frame.Uses.receiver here])
  · exact .fail _

end Emit

namespace Lowering.Sound

variable {s : Setup} {l : Lowering} {U : ValueId → Prop}

theorem compiled (h : l.Sound s) (subject : Subject) (cls : Option DeclId) (args : List Info) :
    Compile.Sound s (l.body subject cls args) := by
  have specialized : Compile.Sound s (Compile.specialize subject cls args) :=
    .of_quiet ⟨fun moment => (Compile.specialize_ends moment subject cls args).mono
      fun _ _ _ _ => trivial⟩ (Compile.specialize_quiet subject cls args)
  refine ⟨fun sound ran => ?_⟩
  obtain ⟨spec, w₁, ran₁, ran₂⟩ := Compile.of_bind_ok ran
  obtain ⟨proceeds₁, sound₁⟩ := specialized.goes sound ran₁
  have typed := ((Compile.specialize_typed sound.moment sound.typed.idle subject cls args).of_ok
    ran₁).2
  obtain ⟨proceeds₂, sound₂⟩ := h.compile spec sound₁ typed ran₂
  exact ⟨proceeds₁.trans proceeds₂, sound₂⟩

theorem body_accepts (h : l.Sound s) {subject : Subject} {cls : Option DeclId} {args : List Info}
    {w w' : Work} {c : CompiledFunction} (sound : w.Sound s)
    (ran : l.body subject cls args s w = .ok c w') : w'.Accepts s c.func 1 := by
  obtain ⟨_, key, _, _, recorded⟩ := (h.walks.body sound.moment subject cls args).of_ok ran
  exact ((h.compiled subject cls args).goes sound ran).2.made key c recorded

theorem body (h : l.Sound s) (subject : Subject) (cls : Option DeclId) (args : List Info) :
    Emit.Sound s U (liftM (l.body subject cls args) : Emit CompiledFunction) fun _ => [] :=
  .lift (h.compiled subject cls args)

/-- A body is compiled, and what follows calls it. -/
theorem body_calling {β : Type} (h : l.Sound s) (subject : Subject) (cls : Option DeclId)
    (args : List Info) {k : CompiledFunction → Emit β} {gives : β → List ValueId}
    (rest : ∀ c, Emit.Calling s c.func 1 U (k c) gives) :
    Emit.Sound s U (liftM (l.body subject cls args) >>= k) gives := by
  refine .bind_calling (·.func) 1 (h.body subject cls args) (fun sound ran => ?_) rest
  obtain ⟨_, made⟩ := Emit.of_lift_ok ran
  exact h.body_accepts sound made

theorem exprs (h : l.Sound s) (es : List ExprId) :
    Emit.Sound s U (l.exprs es) fun vs => vs.flatMap fun v => [v.value] :=
  .mapM _ es fun e _ => h.expr e

theorem coerced (h : l.Sound s) {v : Operand} (info : Info) (used : U v.value) :
    Emit.Sound s U (l.coerced v info) fun p => [p] :=
  (h.coerce v info used).bind fun _ => Emit.boxed_sound (by simp)

theorem argument (h : l.Sound s) {arg : Option Operand} (info : Info)
    (used : ∀ v, arg = some v → U v.value) : Emit.Sound s U (l.argument arg info) fun p => [p] := by
  cases arg with
  | some v => exact h.coerced info (used v rfl)
  | none => exact (Emit.nullValue_sound _).bind fun _ => h.coerced info (by simp)

end Lowering.Sound

/-- The values of operands. -/
theorem mem_values {vs : List Operand} {v : Operand} (inside : v ∈ vs) :
    v.value ∈ vs.flatMap fun v => [v.value] := List.mem_flatMap.mpr ⟨v, inside, by simp⟩

namespace Emit

variable {s : Setup} {α : Type} {l : Lowering} {U : ValueId → Prop} {gives : α → List ValueId}

/-! ## Records -/

theorem loadRef_sound {ptr : ValueId} (field : FieldRef) (n : Name) (h : U ptr) :
    Sound s U (loadRef ptr field n) fun v => [v.value] := by
  apply (Sound.text n).andThen
  intro text
  exact (loadField_sound _ _ _ h).bind fun _ => .pure (by simp [Operand.boxed])

/-- The values of the fields of a record. -/
def fieldIds (fields : Option (List (Name × Operand))) : List ValueId :=
  fields.toList.flatMap fun all => all.flatMap fun field => [field.2.value]

theorem mem_fieldIds {fields : List (Name × Operand)} {field : Name × Operand}
    (inside : field ∈ fields) :
    field.2.value ∈ fieldIds (some fields) := by
  simp only [fieldIds, Option.toList_some, List.flatMap_singleton, List.mem_flatMap,
    List.mem_singleton]
  exact ⟨field, inside, rfl⟩

theorem fieldValues_sound {v : Operand} (h : U v.value) : Sound s U (fieldValues v) fieldIds := by
  apply (Sound.quiet (Compile.namedFields_walks _) (Compile.namedFields_quiet _)).andThen
  intro fields
  apply (Sound.quiet (Compile.recordOf_walks _) (Compile.recordOf_quiet _)).andThen
  intro record
  split
  · apply (boxed_sound h).bind
    intro ptr
    refine (Sound.mapM (fun field : Name × Operand => [field.2.value]) _ ?_).bind ?_
    · rintro ⟨n, index, info⟩ _
      apply (loadRef_sound _ _ (by simp)).bind
      exact fun _ => .pure (by simp)
    · intro all
      exact .pure fun v isGiven => .inl (by simpa [fieldIds] using isGiven)
  · exact .pure (by simp [fieldIds])

theorem fillFields_sound (hl : l.Sound s) (record : TyId) {ptr : ValueId} (h : U ptr)
    (fields : List (Nat × Operand × Info)) (h' : ∀ field ∈ fields, U field.2.1.value) :
    Sound s U (fillFields l record ptr fields) fun _ => [] := by
  induction fields with
  | nil => exact .pure (by simp)
  | cons field rest ih =>
    obtain ⟨index, v, info⟩ := field
    apply (hl.coerced _ (h' _ List.mem_cons_self)).bind
    intro p
    apply (storeField_sound _ _ (by simp [h]) (by simp)).andThen
    intro _
    exact (ih fun field inside => h' field (List.mem_cons_of_mem _ inside)).mono
      fun _ used => .inr used

theorem copyIntoObject_sound (hl : l.Sound s) {v : Operand} (target : ShapeId) (h : U v.value) :
    Sound s U (copyIntoObject l v target) fun v => [v.value] := by
  apply (Sound.quiet (Compile.objectShape_walks _) (Compile.objectShape_quiet _)).andThen
  intro shape
  apply (fieldValues_sound h).bind
  intro source
  split
  · exact .mismatch _ _
  · rename_i source
    apply (Sound.write (.alloc _ _)).bind
    intro obj
    refine Sound.andThen (.forM _ ?_) fun _ => .pure (by simp [Operand.boxed])
    rintro ⟨⟨n, info⟩, i⟩ _
    apply (hl.argument _ fun v found => .inr (.inl
      (mem_fieldIds (Table.mem_of_find?_eq_some found)))).bind
    intro p
    exact storeField_sound _ _ (by simp) (by simp)

/-! ## Unions -/

theorem index_sound (i : Nat) : Sound s U (index i) fun v => [v] := .write (.plain _)

theorem elemAddr_sound {array : ValueId} (i : Nat) (name : String) (h : U array) :
    Sound s U (elemAddr array i name) fun v => [v] :=
  (index_sound i).bind fun _ => .write (.elemAddr _ _ (by simp [h]) (by simp))

theorem unionWith_sound (u : UnionShape) (shape : ShapeId) (moves : List (Nat × ValueId))
    (h : ∀ move ∈ moves, U move.2) : Sound s U (unionWith u shape moves) fun v => [v.value] := by
  apply (Sound.write (.alloc _ _)).bind
  intro r
  refine Sound.andThen (.forM _ ?_) fun _ => .pure (by simp [Operand.boxed])
  rintro ⟨slot, value⟩ inside
  exact storeField_sound _ _ (by simp) (.inr (h _ inside))

theorem presentUnion_sound (record : TyId) {value : ValueId} (h : U value) :
    Sound s U (presentUnion record value) fun r => [r] := by
  apply (Sound.write (.alloc _ _)).bind
  intro r
  apply (Sound.write (.plain _)).bind
  intro present
  apply (Sound.write (.fieldAddr _ _ _ (by simp))).bind
  intro marker
  apply (Sound.write (.store (by simp) (by simp))).andThen
  intro _
  exact (storeField_sound _ _ (by simp) (by simp [h])).andThen fun _ => .pure (by simp)

/-- The slots of a union take a value. -/
theorem fillSlots_sound (u : UnionShape) {p r : ValueId} (hp : U p) (hr : U r) :
    Sound s U ((List.range u.slots.length).forM fun slot => do
      Draft.store p (← elemAddr r (u.fieldOfSlot slot) "union.slot") : Emit PUnit) fun _ => [] := by
  apply Sound.forM
  intro slot _
  exact (elemAddr_sound _ _ hr).bind fun _ => .write (.store (by simp [hp]) (by simp))

/-- A union is filled where the value is not null; either way it is read from one place. -/
theorem unionFromAny_sound {v : Operand} (u : UnionShape) (shape : ShapeId) (h : U v.value) :
    Sound s U (unionFromAny v u shape) fun v => [v.value] := by
  unfold unionFromAny
  dsimp only
  apply (boxed_sound h).bind
  intro p
  apply Sound.ite
  · exact (Sound.write (.bitcast _ _ (by simp))).bind fun _ => .pure (by simp [Operand.boxed])
  apply (Sound.write (.alloc _ _)).bind
  intro out
  apply (Sound.write (.plain _)).bind
  intro null
  apply (Sound.write (.compare _ _ (by simp) (by simp))).bind
  intro isNull
  have after : Sound s (fun v => v ∈ [isNull] ∨ v ∈ [null] ∨ v ∈ [out] ∨ v ∈ [p] ∨ U v) (do
      return .boxed (← Draft.load .ptr out "union") (.union shape) : Emit Operand)
      fun v => [v.value] :=
    (Sound.write (.load _ _ (by simp))).bind fun _ => .pure (by simp [Operand.boxed])
  by_cases optional : u.optional = true
  · simp only [optional, if_true]
    have before : Sound s (fun v => v ∈ [isNull] ∨ v ∈ [null] ∨ v ∈ [out] ∨ v ∈ [p] ∨ U v) (do
        let absent ← Draft.alloc u.record "union.absent"
        Draft.store absent out : Emit Unit) fun _ => [] :=
      (Sound.write (.alloc _ _)).bind fun _ => .write (.store (by simp) (by simp))
    have aside : Sound s (fun v => v ∈ [isNull] ∨ v ∈ [null] ∨ v ∈ [out] ∨ v ∈ [p] ∨ U v) (do
        let r ← presentUnion u.record p
        Draft.store r out : Emit Unit) fun _ => [] :=
      (presentUnion_sound _ (by simp)).bind fun _ => .write (.store (by simp) (by simp))
    have whole := Sound.detour "union.fill" "union.done" (fun way done => .condBr isNull done way)
      before (by simp [Exit.operands]) (by simp [Exit.targets]) aside after
    simp only [bind_assoc] at whole
    exact whole
  · simp only [optional, if_false, Bool.false_eq_true, pure_bind]
    have aside : Sound s (fun v => v ∈ [isNull] ∨ v ∈ [null] ∨ v ∈ [out] ∨ v ∈ [p] ∨ U v) (do
        let r ← Draft.alloc u.record "union"
        (List.range u.slots.length).forM fun slot => do
          Draft.store p (← elemAddr r (u.fieldOfSlot slot) "union.slot")
        Draft.store r out : Emit Unit) fun _ => [] := by
      apply (Sound.write (.alloc _ _)).bind
      intro r
      apply (fillSlots_sound u (by simp) (by simp)).andThen
      exact fun _ => .write (.store (by simp) (by simp))
    have whole := Sound.detour "union.fill" "union.done" (fun way done => .condBr isNull done way)
      (.pure (by simp) : Sound s _ (Pure.pure ⟨⟩) fun _ => []) (by simp [Exit.operands])
      (by simp [Exit.targets]) aside after
    simp only [bind_assoc, pure_bind] at whole
    exact whole

/-- The first slot that is filled is taken; the ways that take one lead to a block from before. -/
theorem takeFilled_goes (u : UnionShape) {ptr null out : ValueId} {done : BlockId}
    (slots : List (UnionSlot × Nat)) {w w' : Work} {f f' : Frame} {g : Sketch} {a : Unit}
    (base : f.Stands s w g) (hasPtr : f.draft.Has g ptr) (hasNull : f.draft.Has g null)
    (hasOut : f.draft.Has g out) (meets : f.Meets g done)
    (ran : takeFilled u ptr null out done slots f s w = .ok (a, f') w') :
    ∃ g', Frame.Goes s w f g w' f' g' := by
  induction slots generalizing w f g with
  | nil =>
    cases ran
    exact ⟨g, .refl base⟩
  | cons entry rest ih =>
    obtain ⟨slot, i⟩ := entry
    obtain ⟨value, f₁, w₁, ran₁, rest₁⟩ := of_bind_ok ran
    obtain ⟨g₁, goes₁, has₁⟩ := (loadField_sound (U := (· = ptr)) _ _ _ rfl).goes base
      (fun v isPtr => isPtr ▸ hasPtr) ran₁
    obtain ⟨filled, f₂, w₂, ran₂, rest₂⟩ := of_bind_ok rest₁
    obtain ⟨g₂, goes₂, has₂⟩ := (Sound.write (.compare (U := (· ∈ [value, null])) .ne "filled"
      (by simp) (by simp))).goes (goes₁.stands base) (fun v isUsed => by
        rcases List.mem_pair.mp isUsed with rfl | rfl
        · exact has₁ v (by simp)
        · exact goes₁.becomes.keeps v hasNull) ran₂
    have hasValue : f₂.draft.Has g₂ value := goes₂.becomes.keeps value (has₁ value (by simp))
    have hasFilled : f₂.draft.Has g₂ filled := has₂ filled (by simp)
    replace goes₂ := goes₁.trans goes₂
    have base₂ := goes₂.stands base
    have start : Frame.Active True s w₂ f₂ g₂ w₂ f₂ g₂ [] [] := .start base₂
    obtain ⟨take, f₃, g₃, h₃, _, rest₃⟩ := start.block "member.take" rest₂
    obtain ⟨next, f₄, g₄, h₄, _, rest₄⟩ := h₃.block "member.next" rest₃
    obtain ⟨f₅, h₅, rest₅⟩ := h₄.exit base₂ (.condBr filled take next)
      (by simpa [Exit.operands] using h₄.keeps _ hasFilled) (by simp [Exit.targets]) rest₄
    obtain ⟨f₆, h₆, rest₆⟩ := h₅.enter base₂ (.swap _ _ _) rest₅
    obtain ⟨_, f₇, w₇, g₇, h₇, _, _, rest₇⟩ :=
      h₆.part base₂ (.write (.store (U := f₂.draft.Has g₂) hasValue
      (goes₂.becomes.keeps out hasOut))) h₆.keeps rest₆
    obtain ⟨f₈, h₈, rest₈⟩ := h₇.exit base₂ (.br done) (by simp [Exit.operands])
      (by simp [Exit.targets, goes₂.meets meets]) rest₇
    obtain ⟨f₉, h₉, rest₉⟩ := h₈.enter base₂ (.refl _) rest₈
    have goes₉ := goes₂.trans h₉.goes
    obtain ⟨g', goes'⟩ := ih (goes₉.stands base) (goes₉.becomes.keeps _ hasPtr)
      (goes₉.becomes.keeps _ hasNull) (goes₉.becomes.keeps _ hasOut) (goes₉.meets meets) rest₉
    exact ⟨g', goes₉.trans goes'⟩

/-- What a union holds is put in one place on every way, and read from there. -/
theorem unionToAny_sound {v : Operand} (shape : ShapeId) (h : U v.value) :
    Sound s U (unionToAny v shape) fun v => [v.value] := by
  unfold unionToAny
  dsimp only
  apply (Sound.quiet (Compile.unionShape_walks _) (Compile.unionShape_quiet _)).andThen
  intro u
  apply (boxed_sound h).bind
  intro ptr
  apply Sound.ite (.pure (by simp [Operand.boxed]))
  apply (Sound.write (.alloc _ _)).bind
  intro out
  apply (Sound.write (.plain _)).bind
  intro null
  refine ⟨fun {w w' f f' g a} base uses ran => ?_⟩
  have hasPtr : f.draft.Has g ptr := uses ptr (by simp)
  have hasOut : f.draft.Has g out := uses out (by simp)
  have hasNull : f.draft.Has g null := uses null (by simp)
  have last : Sound s (f.draft.Has g) (do
      return .boxed (← Draft.load .ptr out "member") .any : Emit Operand) fun v => [v.value] :=
    (Sound.write (.load _ _ hasOut)).bind fun _ => .pure (by simp [Operand.boxed])
  have start : Frame.Active True s w f g w f g [] [] := .start base
  obtain ⟨done, f₁, g₁, h₁, _, ran₁⟩ := start.block "member.done" ran
  obtain ⟨read, f₂, g₂, h₂, _, ran₂⟩ := h₁.block "member.read" ran₁
  obtain ⟨isNull, f₃, w₃, g₃, h₃, has₃, _, ran₃⟩ := h₂.part base
    (.write (.compare (U := f.draft.Has g) .eq "union.null" hasPtr hasNull)) h₂.keeps ran₂
  obtain ⟨f₄, h₄, ran₄⟩ := h₃.exit base (.condBr isNull done read) has₃
    (by simp [Exit.targets]) ran₃
  obtain ⟨f₅, h₅, ran₅⟩ := h₄.enter base (.refl _) ran₄
  split at ran₅
  · obtain ⟨marker, f₆, w₆, g₆, h₆, has₆, _, ran₆⟩ := h₅.part base
      (.write (.fieldAddr (U := f.draft.Has g) u.record 0 "present.p" hasPtr)) h₅.keeps ran₅
    obtain ⟨present, f₇, w₇, g₇, h₇, has₇, _, ran₇⟩ := h₆.part base
      (.write (.load (U := (· ∈ [marker])) .i1 "present" (by simp))) has₆ ran₆
    obtain ⟨take, f₈, g₈, h₈, keeps₈, ran₈⟩ := h₇.block "member.take" ran₇
    obtain ⟨f₉, h₉, ran₉⟩ := h₈.exit base (.condBr present take done)
      (fun v used => keeps₈ v (has₇ v used)) (by simp [Exit.targets]) ran₈
    obtain ⟨f₁₀, h₁₀, ran₁₀⟩ := h₉.enter base (.refl _) ran₉
    obtain ⟨value, f₁₁, w₁₁, g₁₁, h₁₁, has₁₁, _, ran₁₁⟩ := h₁₀.part base
      (loadField_sound (U := f.draft.Has g) u.record 1 "value" hasPtr) h₁₀.keeps ran₁₀
    obtain ⟨_, f₁₂, w₁₂, g₁₂, h₁₂, _, _, ran₁₂⟩ := h₁₁.part base
      (.write (.store (U := f₁₁.draft.Has g₁₁) (has₁₁ value (by simp)) (h₁₁.keeps out hasOut)))
      (fun _ has => has) ran₁₁
    obtain ⟨f₁₃, h₁₃, ran₁₃⟩ := h₁₂.exit base (.br done) (by simp [Exit.operands])
      (by simp [Exit.targets]) ran₁₂
    obtain ⟨f₁₄, h₁₄, ran₁₄⟩ := h₁₃.enter base (.refl _) ran₁₃
    obtain ⟨g', h', given, _⟩ := h₁₄.last base last h₁₄.keeps ran₁₄
    exact ⟨g', h'.goes, given⟩
  · obtain ⟨_, f₆, w₆, ranTake, ran₆⟩ := of_bind_ok ran₅
    have base₅ := h₅.stands base
    have meets : f₅.Meets _ done := ⟨(h₅.fresh done (by simp)).2, fun v promised =>
      h₅.keeps v ((h₅.given done (by simp) v).mp promised)⟩
    obtain ⟨g₆, goes₆⟩ := takeFilled_goes u _ base₅ (h₅.keeps _ hasPtr) (h₅.keeps _ hasNull)
      (h₅.keeps _ hasOut) meets ranTake
    have h₆ := h₅.onward goes₆
    obtain ⟨f₇, h₇, ran₇⟩ := h₆.exit base (.br done) (by simp [Exit.operands])
      (by simp [Exit.targets]) ran₆
    obtain ⟨f₈, h₈, ran₈⟩ := h₇.enter base (.refl _) ran₇
    obtain ⟨g', h', given, _⟩ := h₈.last base last h₈.keeps ran₈
    exact ⟨g', h'.goes, given⟩

theorem initFromUnion_sound {v : Operand} (u : UnionShape) (target source : ShapeId)
    (h : U v.value) :
    Sound s U (initFromUnion v u target source) fun v => [v.value] := by
  apply (Sound.quiet (Compile.unionShape_walks _) (Compile.unionShape_quiet _)).andThen
  intro src
  apply (boxed_sound h).bind
  intro ptr
  refine (Sound.filterMapM (fun move : Nat × ValueId => [move.2]) _ ?_).bind ?_
  · rintro ⟨slot, i⟩ _
    dsimp only
    split
    · exact (loadField_sound _ _ _ (by simp)).bind fun _ => .pure (by simp)
    · exact .pure (by simp)
  · intro moves
    refine .ite (.mismatch _ _) (unionWith_sound _ _ _ fun move inside => .inl ?_)
    exact List.mem_flatMap.mpr ⟨move, inside, by simp⟩

theorem propertyMoves_sound (hl : l.Sound s) {v : Operand} (u : UnionShape) (h : U v.value) :
    Sound s U (propertyMoves l v u) fun moves => moves.flatMap fun move => [move.2] := by
  apply (fieldValues_sound h).bind
  intro fields
  refine .filterMapM _ _ ?_
  rintro ⟨n, field⟩ inside
  have used : field.value ∈ fieldIds fields := by
    cases fields with
    | none => simp at inside
    | some fields => exact mem_fieldIds inside
  dsimp only
  split
  · exact (hl.coerced _ (.inl used)).bind fun _ => .pure (by simp)
  · exact .pure (by simp)

theorem initFromInstance_sound {v : Operand} (u : UnionShape) (target : ShapeId) (h : U v.value) :
    Sound s U (initFromInstance v u target) fun v => [v.value] := by
  unfold initFromInstance
  split
  · apply (Sound.asks _).andThen
    intro chain
    split
    · exact unionWith_sound _ _ _ (by simpa using h)
    · exact .mismatch _ _
  · exact .mismatch _ _

theorem initMember_sound (hl : l.Sound s) {v : Operand} (u : UnionShape) (target : ShapeId)
    (h : U v.value) : Sound s U (initMember l v u target) fun v => [v.value] := by
  unfold initMember
  split
  · exact (boxed_sound h).bind fun _ => unionWith_sound _ _ _ (by simp)
  · exact initFromUnion_sound _ _ _ h
  · apply (propertyMoves_sound hl u h).bind
    intro moves
    refine .ite (initFromInstance_sound u target (.inr h)) (unionWith_sound _ _ _ ?_)
    exact fun move inside => .inl (List.mem_flatMap.mpr ⟨move, inside, by simp⟩)

theorem initOptional_sound (hl : l.Sound s) {v : Operand} (u : UnionShape) (target : ShapeId)
    (h : U v.value) : Sound s U (initOptional l v u target) fun v => [v.value] := by
  have present {V : ValueId → Prop} (inner : Operand) (used : V inner.value) : Sound s V (do
      return .boxed (← presentUnion u.record (← boxed inner)) (.union target) : Emit Operand)
      fun v => [v.value] :=
    (boxed_sound used).bind fun _ => (presentUnion_sound _ (by simp)).bind fun _ =>
      .pure (by simp [Operand.boxed])
  unfold initOptional
  dsimp only
  split
  · exact (hl.extract _ _ _ h).bind fun inner => present inner (by simp)
  · exact (hl.coerce _ _ h).bind fun inner => present inner (by simp)

theorem unionInit_sound (hl : l.Sound s) {v : Operand} (target : ShapeId) (h : U v.value) :
    Sound s U (unionInit l v target) fun v => [v.value] := by
  apply (Sound.quiet (Compile.unionShape_walks _) (Compile.unionShape_quiet _)).andThen
  intro u
  apply Sound.ite (.pure (by simp [h]))
  apply Sound.ite
  · exact .ite ((Sound.write (.alloc _ _)).bind fun _ => .pure (by simp [Operand.boxed]))
      (nullValue_sound _)
  · exact .ite (unionFromAny_sound u target h)
      (.ite (initOptional_sound hl u target h) (initMember_sound hl u target h))

theorem unknownMember_sound (u : UnionShape) (target : Info) :
    Sound s U (unknownMember u target : Emit α) gives :=
  (Sound.infoName _).andThen fun _ => .fail _

theorem extractOptional_sound (hl : l.Sound s) (u : UnionShape) {ptr : ValueId} (target : Info)
    (h : U ptr) : Sound s U (extractOptional l u ptr target) fun v => [v.value] := by
  have rest (fits : Bool) : Sound s U (if fits then (do
      let value ← loadField u.record ptr 1 "value"
      l.coerce (.boxed value u.memberInfo) target) else unknownMember u target)
      fun v => [v.value] :=
    .ite ((loadField_sound _ _ _ h).bind fun _ => hl.coerce _ _ (by simp [Operand.boxed]))
      (unknownMember_sound u target)
  unfold extractOptional
  dsimp only
  split
  · exact (Sound.pure (by simp)).andThen rest
  · exact (Sound.quiet (widensTo_walks _ _) (widensTo_quiet _ _)).andThen rest

theorem extractObject_sound (hl : l.Sound s) (u : UnionShape) {ptr : ValueId} (shape : ShapeId)
    (h : U ptr) : Sound s U (extractObject l u ptr shape) fun v => [v.value] := by
  apply (Sound.quiet (Compile.objectShape_walks _) (Compile.objectShape_quiet _)).andThen
  intro o
  split
  · exact unknownMember_sound u _
  · apply (Sound.write (.alloc _ _)).bind
    intro r
    refine Sound.andThen (.forM _ ?_) fun _ => .pure (by simp [Operand.boxed])
    rintro ⟨⟨n, info, slot⟩, i⟩ _
    apply (Sound.text n).andThen
    intro text
    apply (loadField_sound _ _ _ (.inr h)).bind
    intro value
    apply (hl.coerced _ (by simp [Operand.boxed])).bind
    intro p
    exact storeField_sound _ _ (by simp) (by simp)

theorem extractMember_sound (hl : l.Sound s) (u : UnionShape) {ptr : ValueId} (target : Info)
    (h : U ptr) : Sound s U (extractMember l u ptr target) fun v => [v.value] := by
  unfold extractMember
  split
  · exact (loadField_sound _ _ _ h).bind fun _ => hl.coerce _ _ (by simp [Operand.boxed])
  · exact extractObject_sound hl u _ h
  · exact unknownMember_sound u _

theorem unionExtract_sound (hl : l.Sound s) {v : Operand} (source : ShapeId) (target : Info)
    (h : U v.value) : Sound s U (unionExtract l v source target) fun v => [v.value] := by
  apply (Sound.quiet (Compile.unionShape_walks _) (Compile.unionShape_quiet _)).andThen
  intro u
  split
  · exact .ite (.pure (by simp [h])) (unionInit_sound hl _ h)
  · apply (boxed_sound h).bind
    intro ptr
    exact .ite (extractOptional_sound hl u _ (by simp)) (extractMember_sound hl u _ (by simp))

theorem isPresent_sound {v : Operand} (shape : ShapeId) (h : U v.value) :
    Sound s U (isPresent v shape) fun p => [p] := by
  apply (Sound.quiet (Compile.unionShape_walks _) (Compile.unionShape_quiet _)).andThen
  intro u
  apply Sound.ite
  · apply (boxed_sound h).bind
    intro ptr
    exact (Sound.write (.fieldAddr _ _ _ (by simp))).bind fun _ => .write (.load _ _ (by simp))
  · exact .fail _

theorem isAbsent_sound {v : Operand} (h : U v.value) : Sound s U (isAbsent v) fun p => [p] := by
  apply (Sound.quiet (optionalShape?_walks _) (optionalShape?_quiet _)).andThen
  intro shape
  split
  · exact (isPresent_sound _ h).bind fun _ => .write (.not _ (by simp))
  · apply (boxed_sound h).bind
    intro p
    exact (Sound.write (.plain _)).bind fun _ => .write (.compare _ _ (by simp) (by simp))

/-! ## Intersections -/

theorem initFromIntersection_sound (hl : l.Sound s) {v : Operand} (shape : IntersectionShape)
    (target source : ShapeId) (h : U v.value) :
    Sound s U (initFromIntersection l v shape target source) fun v => [v.value] := by
  apply (Sound.quiet (Compile.intersectionShape_walks _)
    (Compile.intersectionShape_quiet _)).andThen
  intro src
  apply (boxed_sound h).bind
  intro ptr
  split
  · exact .mismatch _ _
  · apply (Sound.write (.alloc _ _)).bind
    intro r
    refine Sound.andThen (.forM _ ?_) fun _ => .pure (by simp [Operand.boxed])
    rintro ⟨dest, source⟩ _
    apply (loadField_sound _ _ _ (by simp)).bind
    intro value
    apply (hl.coerced _ (by simp [Operand.boxed])).bind
    intro p
    exact storeField_sound _ _ (by simp) (by simp)

theorem exists_of_mapM {β : Type} {k : α → Option β} {as : List α} {bs : List β}
    (found : as.mapM k = some bs) {b : β} (inside : b ∈ bs) : ∃ a ∈ as, k a = some b := by
  induction as generalizing bs with
  | nil =>
    cases found
    simp at inside
  | cons a as ih =>
    simp only [List.mapM_cons, Option.bind_eq_bind, Option.bind_eq_some_iff, Option.pure_def,
      Option.some.injEq] at found
    obtain ⟨first, isFirst, others, areOthers, rfl⟩ := found
    rcases List.mem_cons.mp inside with rfl | later
    · exact ⟨a, List.mem_cons_self, isFirst⟩
    · obtain ⟨a', isThere, here⟩ := ih areOthers later
      exact ⟨a', List.mem_cons_of_mem _ isThere, here⟩

/-- What is arranged for the fields was given. -/
theorem arrange_mem {shape : IntersectionShape} {source : List (Name × Operand)}
    {values : List Operand}
    (arranged : shape.arrange source = some values) {v : Operand} (inside : v ∈ values) :
    v.value ∈ fieldIds (some source) := by
  unfold IntersectionShape.arrange at arranged
  split at arranged
  · rename_i all
    cases arranged
    obtain ⟨field, _, isFound⟩ := exists_of_mapM all inside
    split at isFound
    · cases isFound
    · exact mem_fieldIds (Table.mem_of_find?_eq_some isFound)
  · split at arranged
    · cases arranged
      obtain ⟨field, isField, rfl⟩ := List.mem_map.mp inside
      exact mem_fieldIds isField
    · cases arranged

theorem initFromFields_sound (hl : l.Sound s) (v : Operand) (shape : IntersectionShape)
    (target : ShapeId) {source : List (Name × Operand)} (h : ∀ x ∈ fieldIds (some source), U x) :
    Sound s U (initFromFields l v shape target source) fun v => [v.value] := by
  unfold initFromFields
  split
  · exact .mismatch _ _
  · rename_i values arranged
    apply (Sound.write (.alloc _ _)).bind
    intro r
    refine Sound.andThen (fillFields_sound hl _ (by simp) _ ?_) fun _ =>
      .pure (by simp [Operand.boxed])
    intro field inside
    obtain ⟨⟨⟨value, _, _⟩, _⟩, isThere, rfl⟩ := List.mem_map.mp inside
    have isValue : value ∈ values := (List.of_mem_zip
      (List.mem_zipIdx' isThere |>.2 ▸ List.getElem_mem _)).1
    exact .inr (h _ (arrange_mem arranged isValue))

theorem initSingle_sound (hl : l.Sound s) {v : Operand} (shape : IntersectionShape)
    (target : ShapeId) (h : U v.value) : Sound s U (initSingle l v shape target)
    fun v => [v.value] := by
  unfold initSingle
  split
  · apply (hl.coerced _ h).bind
    intro value
    apply (Sound.write (.alloc _ _)).bind
    intro r
    apply (storeField_sound _ _ (by simp) (by simp)).andThen
    exact fun _ => .pure (by simp [Operand.boxed])
  · exact .mismatch _ _

theorem intersectionInit_sound (hl : l.Sound s) {v : Operand} (target : ShapeId) (h : U v.value) :
    Sound s U (intersectionInit l v target) fun v => [v.value] := by
  apply (Sound.quiet (Compile.intersectionShape_walks _)
    (Compile.intersectionShape_quiet _)).andThen
  intro shape
  apply Sound.ite (.pure (by simp [h]))
  apply Sound.ite (nullValue_sound _)
  split
  · exact initFromIntersection_sound hl shape target _ h
  · apply (fieldValues_sound h).bind
    intro source
    split
    · exact initFromFields_sound hl v shape target fun x given => .inl given
    · exact initSingle_sound hl shape target (.inr h)

theorem memberRecord_sound (shape : IntersectionShape) (source target : Info) :
    Sound s U (memberRecord shape source target) fun _ => [] := by
  unfold memberRecord
  split
  · apply (Sound.quiet (Compile.objectShape_walks _) (Compile.objectShape_quiet _)).andThen
    exact fun _ => .pure (by simp)
  · apply (Sound.quiet (Compile.layoutOf_walks _) (Compile.layoutOf_quiet _)).andThen
    intro layout
    exact .ite ((Sound.infoName _).andThen fun _ => .fail _) (.pure (by simp))
  · apply (Sound.quiet (Compile.intersectionShape_walks _)
      (Compile.intersectionShape_quiet _)).andThen
    exact fun _ => .pure (by simp)
  · exact .mismatch _ _

theorem intersectionExtract_sound (hl : l.Sound s) {v : Operand} (source : ShapeId) (target : Info)
    (h : U v.value) : Sound s U (intersectionExtract l v source target) fun v => [v.value] := by
  apply (Sound.quiet (Compile.intersectionShape_walks _)
    (Compile.intersectionShape_quiet _)).andThen
  intro shape
  apply Sound.ite
  · exact (boxed_sound h).bind fun _ => .pure (by simp [Operand.boxed])
  apply (Sound.quiet (Compile.memberFields_walks _) (Compile.memberFields_quiet _)).andThen
  intro wanted
  apply (Sound.infoName _).andThen
  intro name
  split
  · exact .mismatch _ _
  · apply (boxed_sound h).bind
    intro ptr
    apply Sound.ite
    · exact (loadField_sound _ _ _ (by simp)).bind fun _ => hl.coerce _ _ (by simp [Operand.boxed])
    · apply (memberRecord_sound _ _ _).andThen
      intro record
      apply (Sound.write (.alloc _ _)).bind
      intro r
      refine Sound.andThen (.forM _ ?_) fun _ => .pure (by simp [Operand.boxed])
      rintro ⟨⟨n, info⟩, i⟩ _
      apply (Sound.text n).andThen
      intro text
      apply (loadField_sound _ _ _ (by simp)).bind
      intro value
      apply (hl.coerced _ (by simp [Operand.boxed])).bind
      intro p
      exact storeField_sound _ _ (by simp) (by simp)

/-! ## Closures -/

theorem outerSource?_sound (e : Environment) (slot : EnvSlot) (i : Nat) :
    Sound s U (outerSource? e slot i) fun source => source.toList.map (·.1.ptr) := by
  apply Sound.get_bind
  intro f
  split
  · rename_i current feed here _
    apply Sound.pure
    intro v isGiven
    left
    split at isGiven
    · obtain rfl : v = current.ptr := by simpa using isGiven
      exact .env here
    · simp at isGiven
  · exact .pure (by simp)

theorem slotMeaning_sound (slot : EnvSlot) (n : Name) : Sound s U (slotMeaning slot n) cellOf := by
  unfold slotMeaning
  split
  · rename_i d _
    apply Sound.get_bind
    intro f
    apply Sound.pure
    intro v isGiven
    left
    cases here : f.scope.variableOf d with
    | none => simp [here, cellOf] at isGiven
    | some binding =>
      cases binding with
      | cell ptr info =>
        obtain rfl : v = ptr := by simpa [here, cellOf] using isGiven
        exact .reachable here
      | _ => simp [here, cellOf] at isGiven
  · exact lookup_sound n

theorem fillByScope_sound (e : Environment) {ptr : ValueId} (slot : EnvSlot) (i : Nat) (n : Name)
    (h : U ptr) : Sound s U (fillByScope e ptr slot i n) fun _ => [] := by
  apply (slotMeaning_sound slot n).bind
  intro found
  split
  · exact storeField_sound _ _ (.inr h) (by simp [cellOf])
  · exact (Sound.write (.plain _)).bind fun _ => storeField_sound _ _ (by simp [h]) (by simp)
  · exact .ite ((Sound.text n).andThen fun _ => .fail _) (.pure (by simp))

theorem fillCapture_sound (e : Environment) {ptr : ValueId} (slot : EnvSlot) (i : Nat) (h : U ptr) :
    Sound s U (fillCapture e ptr slot i) fun _ => [] := by
  unfold fillCapture
  split
  · exact .pure (by simp)
  · exact .pure (by simp)
  · exact .pure (by simp)
  · apply (outerSource?_sound e slot i).bind
    intro source
    split
    · apply (Sound.quiet (Compile.env_walks _) (Compile.env_quiet _)).andThen
      intro outer
      apply (Sound.text _).andThen
      intro text
      apply (loadField_sound _ _ _ (by simp)).bind
      intro value
      exact storeField_sound _ _ (by simp [h]) (by simp)
    · exact fillByScope_sound _ _ _ _ (.inr h)

theorem fillCaptures_sound (e : Environment) {ptr : ValueId} (h : U ptr) :
    Sound s U (fillCaptures e ptr) fun _ => [] :=
  .forM _ fun _ _ => fillCapture_sound _ _ _ h

theorem fillReceiver_sound (e : Environment) {ptr : ValueId} {given : Option ValueId} (h : U ptr)
    (h' : ∀ v, given = some v → U v) : Sound s U (fillReceiver e ptr given) fun _ => [] := by
  unfold fillReceiver
  split
  · exact .pure (by simp)
  · dsimp only
    split
    · rw [pure_bind]
      exact storeField_sound _ _ h (h' _ rfl)
    · apply receiver_sound.bind
      intro this
      apply (boxed_sound (by simp)).bind
      intro p
      exact storeField_sound _ _ (by simp [h]) (by simp)

theorem writeArgs_sound (hl : l.Sound s) (e : Environment) {ptr : ValueId} (params : List Info)
    {args : List Operand} (h : U ptr) (h' : ∀ v ∈ args, U v.value) :
    Sound s U (writeArgs l e ptr params args) fun _ => [] := by
  apply Sound.forM
  intro i _
  apply (hl.argument _ fun v found => h' v (List.mem_of_getElem? found)).bind
  intro value
  apply (newCell_sound _ (by simp)).bind
  intro cell
  exact storeField_sound _ _ (by simp [h]) (by simp)

theorem of_register_ok {f : Registry → Except RegistryError Registry} {w w' : Work}
    {done : Unit} (ran : Compile.register f s w = .ok done w') :
    ∃ registry, w' = { w with registry } := by
  obtain ⟨r, w₁, here, ran⟩ := Compile.of_bind_ok ran
  cases here
  cases changed : f w.registry with
  | ok registry =>
    simp only [changed] at ran
    cases ran
    exact ⟨registry, rfl⟩
  | error e =>
    simp only [changed] at ran
    cases ran

theorem bindClosure_sound (code : FuncId) (c : ClosureRecord) :
    Compile.Sound s (Compile.register (·.bindClosure code c)) := by
  refine ⟨fun {w w' a} sound ran => ?_⟩
  have still := (Compile.bindClosure_quiet code c).still ran
  have later := bindClosure_later ran
  obtain ⟨registry, rfl⟩ := of_register_ok ran
  have proceeds : Proceeds s w { w with registry } :=
    .of_same later still.course still.made fun _ _ known => known
  exact ⟨proceeds, sound.calm proceeds (.of_still still)
    (sound.typed.stays later rfl still.scope still.sites still.envs)⟩

theorem makeClosure_sound (c : CompiledFunction) (d : DeclId) {env : ValueId} (sig : Option TypeId)
    (h : U env) : Sound s U (makeClosure c d env sig) fun c => [c.ptr] := by
  apply (Sound.quiet Compile.runtime_walks Compile.runtime_quiet).andThen
  intro rt
  apply (Sound.lift (bindClosure_sound _ _)).andThen
  intro _
  apply (Sound.write (.alloc _ _)).bind
  intro ptr
  apply (Sound.write (.plain _)).bind
  intro code
  apply (storeField_sound _ _ (by simp) (by simp)).andThen
  intro _
  exact (storeField_sound _ _ (by simp) (by simp [h])).andThen fun _ => .pure (by simp)

theorem captureEnv_sound (env : EnvId) {given : Option ValueId} (h : ∀ v, given = some v → U v) :
    Sound s U (captureEnv env given) fun p => [p] := by
  apply (Sound.quiet (Compile.env_walks _) (Compile.env_quiet _)).andThen
  intro e
  apply (Sound.write (.alloc _ _)).bind
  intro ptr
  apply (fillCaptures_sound e (by simp)).andThen
  intro _
  exact (fillReceiver_sound e (by simp) fun v isGiven => .inr (h v isGiven)).andThen
    fun _ => .pure (by simp)

theorem closureOf_sound (c : CompiledFunction) (d : DeclId) {given : Option ValueId}
    (h : ∀ v, given = some v → U v) : Sound s U (closureOf c d given) fun c => [c.ptr] :=
  (captureEnv_sound _ h).bind fun _ => makeClosure_sound _ _ _ (by simp)

theorem makeLazy_sound (d : DeclId) : Sound s U (makeLazy d) fun v => [v.value] := by
  apply (Sound.lift (.environmentOf d)).andThen
  intro id
  apply (captureEnv_sound _ (by simp)).bind
  intro env
  apply (Sound.quiet Compile.runtime_walks Compile.runtime_quiet).andThen
  intro rt
  apply (Sound.write (.alloc _ _)).bind
  intro ptr
  apply (storeField_sound _ _ (by simp) (by simp)).andThen
  exact fun _ => .pure (by simp [Operand.boxed])

theorem functionValue_sound (hl : l.Sound s) (d : DeclId) :
    Sound s U (functionValue l d) fun v => [v.value] := by
  have value (f : FunctionDecl) : Sound s U (do
      if f.body.isNone then Compile.unsupported (.nativeFunctionValue (← Compile.declName d))
      else if f.isGeneric then makeLazy d
      else return (← closureOf (← l.body (.function d) none []) d none).operand : Emit Operand)
      fun v => [v.value] := by
    apply Sound.ite ((Sound.declName d).andThen fun _ => .fail _)
    apply Sound.ite (makeLazy_sound d)
    apply (hl.body _ _ _).andThen
    intro c
    exact (closureOf_sound _ _ (by simp)).bind fun _ =>
      .pure (by simp [ClosureValue.operand, Operand.boxed])
  apply (Sound.asks _).andThen
  intro f
  dsimp only
  split
  · exact (recordSites_sound _).andThen fun _ => value f
  · exact value f

theorem methodClosure_sound (hl : l.Sound s) (m : DeclId) (cls : Option DeclId) {given : ValueId}
    (h : U given) : Sound s U (methodClosure l m cls given) fun v => [v.value] := by
  apply (Sound.quiet (Compile.resolve_walks _ _ _) (Compile.resolve_quiet _ _ _)).andThen
  intro resolution
  apply (Sound.asks _).andThen
  intro f
  apply Sound.ite (.fail _)
  apply (hl.body _ _ _).andThen
  intro c
  exact (closureOf_sound _ _ (by simpa using h)).bind fun _ =>
    .pure (by simp [ClosureValue.operand, Operand.boxed])

theorem boundMethod_sound (hl : l.Sound s) {object : Operand} (cls m : DeclId)
    (h : U object.value) :
    Sound s U (boundMethod l object cls m) fun v => [v.value] :=
  (boxed_sound h).bind fun _ => methodClosure_sound hl _ _ (by simp)

theorem staticMethodValue_sound (hl : l.Sound s) (m : DeclId) :
    Sound s U (staticMethodValue l m) fun v => [v.value] :=
  (Sound.write (.plain _)).bind fun _ => methodClosure_sound hl _ _ (by simp)

theorem sigInfos_sound (sig : TypeId) : Sound s U (sigInfos sig) fun _ => [] := by
  apply Sound.program.andThen
  intro p
  split
  · refine Sound.andThen ((Sound.mapM (fun _ => []) _ fun t _ => infoOf_sound t).less (by simp)) ?_
    intro params
    exact (infoOf_sound _).andThen fun _ => .pure (by simp)
  · exact .fail _

theorem callShape_sound (known : ClosureInfo) (arity : Nat) :
    Sound s U (callShape known arity) fun _ => [] := by
  have env (id : EnvId) : Sound s U (liftM (Compile.env id) : Emit Environment) fun _ => [] :=
    .quiet (Compile.env_walks _) (Compile.env_quiet _)
  have synthetic (n : Nat) : Sound s U (liftM (Compile.syntheticEnv n) : Emit EnvId) fun _ => [] :=
    .lift (.syntheticEnv n)
  apply (Sound.quiet Compile.registry_walks Compile.registry_quiet).andThen
  intro r
  split
  · exact .pure (by simp)
  · exact (env _).andThen fun _ => (sigInfos_sound _).andThen fun _ => .pure (by simp)
  · exact (env _).andThen fun _ => .pure (by simp)
  · exact (sigInfos_sound _).andThen fun _ => (synthetic _).andThen fun _ => .pure (by simp)
  · exact (synthetic _).andThen fun _ => .pure (by simp)

theorem closureCall_sound (hl : l.Sound s) {c : ClosureValue} {args : List Operand} (h : U c.ptr)
    (h' : ∀ v ∈ args, U v.value) : Sound s U (closureCall l c args) fun v => [v.value] := by
  apply (callShape_sound _ _).andThen
  intro shape
  apply (Sound.quiet (Compile.env_walks _) (Compile.env_quiet _)).andThen
  intro e
  apply (Sound.quiet Compile.runtime_walks Compile.runtime_quiet).andThen_knowing
    (P := (s.runtime = ·))
  · intro _ _ _ _ _ _ _ ran
    cases ran
    rfl
  rintro _ rfl
  apply (loadField_sound _ _ _ h).bind
  intro env
  apply (writeArgs_sound hl e _ (by simp) fun v inside => .inr (h' v inside)).andThen
  intro _
  exact ((callPtr_calling _ _ _ (by simp [h])).sound fun w => .closures).bind fun _ =>
    .pure (by simp [Operand.boxed])

theorem closureFromLazy_sound {f : Operand} (d : DeclId) (c : CompiledFunction)
    (sig : Option TypeId)
    (h : U f.value) : Sound s U (closureFromLazy f d c sig) fun c => [c.ptr] := by
  apply (boxed_sound h).bind
  intro ptr
  apply (Sound.quiet Compile.runtime_walks Compile.runtime_quiet).andThen
  intro rt
  exact (loadField_sound _ _ _ (by simp)).bind fun _ => makeClosure_sound _ _ _ (by simp)

theorem lazyCall_sound (hl : l.Sound s) {f : Operand} (d : DeclId) {args : List Operand}
    (h : U f.value) (h' : ∀ v ∈ args, U v.value) :
    Sound s U (lazyCall l f d args) fun v => [v.value] := by
  apply (hl.body _ _ _).andThen
  intro c
  exact (closureFromLazy_sound _ _ _ h).bind fun _ =>
    closureCall_sound hl (by simp) fun v inside => .inr (h' v inside)

theorem specializeLazy_sound (hl : l.Sound s) {f : Operand} (d : DeclId) (sig : TypeId)
    (h : U f.value) : Sound s U (specializeLazy l f d sig) fun v => [v.value] := by
  apply (sigInfos_sound _).andThen
  intro params
  apply (hl.body _ _ _).andThen
  intro c
  exact (closureFromLazy_sound _ _ _ h).bind fun _ =>
    .pure (by simp [ClosureValue.operand, Operand.boxed])

theorem callValue_sound (hl : l.Sound s) {f : Operand} {args : List Operand} (h : U f.value)
    (h' : ∀ v ∈ args, U v.value) : Sound s U (callValue l f args) fun v => [v.value] := by
  have closure (known : ClosureInfo) : Sound s U (do closureCall l ⟨← boxed f, known⟩ args)
      fun v => [v.value] :=
    (boxed_sound h).bind fun _ => closureCall_sound hl (by simp) fun v inside => .inr (h' v inside)
  unfold callValue
  split
  · exact closure _
  · exact lazyCall_sound hl _ h h'
  · exact closure _
  · exact (Sound.infoName _).andThen fun _ => .fail _

/-! ## Coercions -/

theorem coerceInstance_sound {v : Operand} (cls target : DeclId) (h : U v.value) :
    Sound s U (coerceInstance v cls target) fun v => [v.value] := by
  have rest (related : Bool) : Sound s U (if related then
      (pure (.boxed v.value (.instanceOf target)) : Emit Operand)
      else Compile.mismatch (.instanceOf target) v.info) fun v => [v.value] :=
    .ite (.pure (by simp [Operand.boxed, h])) (.mismatch _ _)
  apply (Sound.asks _).andThen
  intro chain
  dsimp only
  split
  · exact (Sound.pure (by simp)).andThen rest
  · exact (Sound.asks _).andThen fun _ => (Sound.pure (by simp)).andThen rest

theorem coercePlain_sound (hl : l.Sound s) {v : Operand} (target : Info) (h : U v.value) :
    Sound s U (coercePlain l v target) fun v => [v.value] := by
  apply Sound.ite (nullValue_sound _)
  split
  · exact coerceInstance_sound _ _ h
  · exact copyIntoObject_sound hl _ h
  · exact copyIntoObject_sound hl _ h
  · exact .pure (by simp [Operand.boxed, h])
  · split
    · exact specializeLazy_sound hl _ _ h
    · exact .pure (by simp [h])
  · exact .mismatch _ _

theorem coerce_sound (hl : l.Sound s) {v : Operand} (target : Info) (h : U v.value) :
    Sound s U (coerce l v target) fun v => [v.value] := by
  apply Sound.ite (.pure (by simp [h]))
  split
  · exact .pure (by simp [h])
  · exact unionToAny_sound _ h
  · exact (boxed_sound h).bind fun _ => .pure (by simp [Operand.boxed])
  · exact unionInit_sound hl _ h
  · apply (boxed_sound h).bind
    intro p
    exact (Sound.write (.bitcast _ _ (by simp))).bind fun _ => .pure (by simp [Operand.boxed])
  · exact unionExtract_sound hl _ _ h
  · exact intersectionInit_sound hl _ h
  · exact intersectionExtract_sound hl _ _ h
  · exact coercePlain_sound hl _ h

/-! ## Calls -/

theorem externalInfo_sound (f : FunctionDecl) (ty : TypeId) :
    Sound s U (externalInfo f ty) fun _ => [] :=
  .ite (.pure (by simp)) (closedInfoOf_sound ty)

theorem length_of_mapM_ok {β : Type} {k : α → Emit β} {as : List α} {bs : List β}
    (ran : as.mapM k f s w = .ok (bs, f') w') : bs.length = as.length := by
  induction as generalizing f w bs with
  | nil =>
    cases ran
    rfl
  | cons a as ih =>
    rw [List.mapM_cons] at ran
    obtain ⟨b, f₁, w₁, _, ran⟩ := of_bind_ok ran
    obtain ⟨bs', f₂, w₂, ran₂, ran⟩ := of_bind_ok ran
    cases ran
    simp [ih ran₂]

/-- The object and the arguments as what is supplied from outside takes them. -/
def externalValues (l : Lowering) (decl : FunctionDecl) (object : Option Operand)
    (args : List Operand) : Emit (List ValueId) := do
  let first ← object.toList.mapM boxed
  let rest ← decl.params.zipIdx.mapM fun (q, i) => do
    l.argument args[i]? (← externalInfo decl (← Compile.asks (·.param q)).ty)
  return first ++ rest

/-- The call of what was obtained from outside. -/
def nativeCall (decl : FunctionDecl) (func : FuncId) (values : List ValueId) : Emit Operand := do
  let result ← callPtr func values "native"
  let ret ← decl.ret.elim (pure .any) (externalInfo decl)
  return .boxed result ret

theorem callExternal_eq (l : Lowering) (d : DeclId) (symbol : String) (object : Option Operand)
    (args : List Operand) : callExternal l d symbol object args = (do
      let decl ← Compile.asks (·.function d)
      let values ← externalValues l decl object args
      let func ← Compile.externalFunction symbol values.length
      nativeCall decl func values) := by
  simp only [callExternal, externalValues, nativeCall, bind_assoc, pure_bind]

/-- One value for the object, if there is one, and one for each parameter. -/
theorem length_externalValues {decl : FunctionDecl} {object : Option Operand} {args : List Operand}
    {values : List ValueId} (ran : externalValues l decl object args f s w = .ok (values, f') w') :
    values.length = object.isSome.toNat + decl.params.length := by
  obtain ⟨first, f₁, w₁, ran₁, ran⟩ := of_bind_ok ran
  obtain ⟨rest, f₂, w₂, ran₂, ran⟩ := of_bind_ok ran
  cases ran
  rw [List.length_append, length_of_mapM_ok ran₁, length_of_mapM_ok ran₂, List.length_zipIdx]
  cases object with
  | none => rfl
  | some v => rfl

theorem externalValues_sound (hl : l.Sound s) (decl : FunctionDecl) {object : Option Operand}
    {args : List Operand} (h : ∀ v, object = some v → U v.value) (h' : ∀ v ∈ args, U v.value) :
    Sound s U (externalValues l decl object args) id := by
  apply (Sound.mapM (fun p => [p]) _ fun v inside =>
    boxed_sound (h v (Option.mem_toList.mp inside))).bind
  intro first
  refine (Sound.mapM (fun p => [p]) _ ?_).bind fun rest => .pure fun v inside => ?_
  · rintro ⟨q, i⟩ _
    apply (Sound.asks _).andThen
    intro param
    apply (externalInfo_sound _ _).andThen
    intro info
    exact hl.argument _ fun v found => .inr (h' v (List.mem_of_getElem? found))
  · rcases List.mem_append.mp inside with isFirst | isRest
    · exact .inr (.inl (by simpa using isFirst))
    · exact .inl (by simpa using isRest)

theorem nativeCall_calling (decl : FunctionDecl) (func : FuncId) {values : List ValueId}
    (h : ∀ v ∈ values, U v) :
    Calling s func values.length U (nativeCall decl func values) fun v => [v.value] := by
  apply (callPtr_calling _ _ _ h).bind
  intro result
  have ret : Sound s U (decl.ret.elim (pure .any) (externalInfo decl)) fun _ => [] := by
    cases decl.ret with
    | none => exact .pure (by simp)
    | some ty => exact externalInfo_sound decl ty
  exact (ret.mono fun v used => .inr used).andThen fun _ => .pure (by simp [Operand.boxed])

theorem callExternal_sound (hl : l.Sound s) {d : DeclId} {symbol : String} {object : Option Operand}
    {args : List Operand} (supplied : s.Supplies d object.isSome symbol)
    (h : ∀ v, object = some v → U v.value) (h' : ∀ v ∈ args, U v.value) :
    Sound s U (callExternal l d symbol object args) fun v => [v.value] := by
  rw [callExternal_eq]
  apply (Sound.asks _).andThen_knowing (P := fun decl => s.program.function d = .ok decl)
    fun _ ran => (of_asks_ok ran).2.2
  intro decl isFunction
  apply (externalValues_sound hl decl h h').bind_knowing fun _ ran => length_externalValues ran
  intro values count
  have asked : s.Asks symbol values.length := count ▸ .call supplied isFunction
  refine Sound.bind_calling id values.length (.lift (.of_mild
    (Compile.externalFunction_walks _ _) (Compile.externalFunction_mild _ _)
    (Compile.externalFunction_course asked))) (fun sound ran => ?_) fun func => ?_
  · obtain ⟨_, made⟩ := of_lift_ok ran
    exact Compile.externalFunction_accepts sound.sorted asked made
  · exact nativeCall_calling decl func fun v inside => .inl inside

theorem callCompiled_calling (hl : l.Sound s) (c : CompiledFunction) {this : Option ValueId}
    {args : List Operand} (h : ∀ v, this = some v → U v) (h' : ∀ v ∈ args, U v.value) :
    Calling s c.func 1 U (callCompiled l c this args) fun v => [v.value] := by
  apply Calling.afterwards (.quiet (Compile.env_walks _) (Compile.env_quiet _))
  intro e
  apply Calling.after (.write (.alloc _ _))
  intro ptr
  apply Calling.afterwards (writeArgs_sound hl e _ (by simp) fun v inside => .inr (h' v inside))
  intro _
  apply Calling.afterwards (fillCaptures_sound e (by simp))
  intro _
  apply Calling.afterwards (fillReceiver_sound e (by simp) fun v isThis => .inr (h v isThis))
  intro _
  exact (callPtr_calling c.func [ptr] _ (by simp)).bind fun _ => .pure (by simp [Operand.boxed])

theorem receiverValue_sound (d : DeclId) {on : Option Receiver}
    (h : ∀ r, on = some r → U r.object.value) : Sound s U (receiverValue d on) Option.toList := by
  cases on with
  | some r => exact (boxed_sound (h r rfl)).bind fun _ => .pure (by simp)
  | none =>
    apply (Sound.asks _).andThen
    intro decl
    exact .ite ((Sound.write (.plain _)).bind fun _ => .pure (by simp)) (.pure (by simp))

theorem callDecl_sound (hl : l.Sound s) (d : DeclId) {on : Option Receiver} {args : List Operand}
    (called : s.program.Called d on.isSome) (h : ∀ r, on = some r → U r.object.value)
    (h' : ∀ v ∈ args, U v.value) :
    Sound s U (callDecl l d on args) fun v => [v.value] := by
  apply (Sound.asks _).andThen
  intro f
  apply Sound.andThen_knowing (.quiet (Compile.resolve_walks _ _ _) (Compile.resolve_quiet _ _ _))
    (P := (s.resolver.resolve s.program d (args.map (·.info)) (on.map (·.object.info)) = ·))
  · intro _ _ _ _ _ _ _ ran
    cases ran
    rfl
  rintro _ rfl
  split
  · rename_i external
    have sameObject : (on.map (·.object)).isSome = on.isSome := by cases on <;> rfl
    have supplied : s.Supplies d (on.map (·.object)).isSome (s.resolver.resolve s.program d
        (args.map (·.info)) (on.map (·.object.info))).name :=
      ⟨sameObject ▸ called, args.map (·.info), on.map (·.object.info), by cases on <;> rfl,
        by rw [← external]⟩
    refine callExternal_sound hl supplied ?_ h'
    intro v isObject
    obtain ⟨r, here, rfl⟩ := Option.map_eq_some_iff.mp isObject
    exact h r here
  apply Sound.ite (.fail _)
  apply hl.body_calling
  intro c
  apply Calling.after (receiverValue_sound d h)
  intro this
  exact callCompiled_calling hl c (fun v isThis => .inl (by simp [isThis])) fun v inside =>
    .inr (h' v inside)

end Emit

end ShapeCompiler
