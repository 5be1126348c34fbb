import ShapeCompiler.Proofs.Thunks

/-!
# Expressions are sound

* `construct_sound`, `readProperty_sound`, `writeProperty_sound`, `call_sound`: the parts of
  expressions, given that the steps of the level below are sound;
* `exprKind_sound`, `expr_sound`: expressions of every kind.
-/

namespace ShapeCompiler

open Source Code Work

namespace Emit

variable {s : Setup} {α : Type} {l : Lowering} {U : ValueId → Prop} {gives : α → List ValueId}

/-! ## Instances -/

/-- A constructor that is declared is a member. -/
theorem of_constructorSubject_ok {w w' : Work} {cls : DeclId} {found : Option Subject}
    (ran : constructorSubject cls s w = .ok found w') :
    ∀ ctor, found = some (.function ctor) → s.program.Called ctor true := by
  rintro ctor rfl
  obtain ⟨declared, w₁, ran₁, ran⟩ := Compile.of_bind_ok ran
  obtain ⟨_, isDeclared⟩ := Compile.of_asks_ok ran₁
  cases declared with
  | some d =>
    cases ran
    exact Program.called_of_constructorOf isDeclared
  | none =>
    obtain ⟨decl, w₂, _, ran⟩ := Compile.of_bind_ok ran
    split at ran
    · cases ran
    · cases ran

/-- A constructor that is supplied from outside is called on the new instance. -/
theorem of_externalConstructor?_ok {w w' : Work} {subject : Subject} {cls : DeclId}
    {args : List Operand} {found : Option (DeclId × String)}
    (member : ∀ ctor, subject = .function ctor → s.program.Called ctor true)
    (ran : externalConstructor? subject cls args s w = .ok found w') :
    ∀ ctor symbol, found = some (ctor, symbol) → s.Supplies ctor true symbol := by
  rintro ctor symbol rfl
  cases subject with
  | implicitConstructor c => cases ran
  | function d =>
    obtain ⟨resolution, w₁, ran₁, ran⟩ := Compile.of_bind_ok ran
    cases ran₁
    split at ran
    · rename_i external
      cases ran
      exact ⟨member ctor rfl, _, some (.instanceOf cls), rfl, by rw [← external]⟩
    · cases ran

theorem runConstructor_sound (hl : l.Sound s) (ctorClass cls : DeclId) {this : ValueId}
    {args : List Operand} (h : U this) (h' : ∀ v ∈ args, U v.value) :
    Sound s U (runConstructor l ctorClass cls this args) fun _ => [] := by
  have object : ∀ v, some (Operand.boxed this (.instanceOf cls)) = some v → U v.value := by
    rintro v ⟨⟩
    exact h
  have isThis : ∀ v, some this = some v → U v := by
    rintro v ⟨⟩
    exact h
  apply Sound.andThen_knowing (.quiet (constructorSubject_walks _) (constructorSubject_quiet _))
    (P := fun found => ∀ ctor, found = some (.function ctor) → s.program.Called ctor true)
    fun _ ran => of_constructorSubject_ok (of_lift_ok ran).2
  intro subject member
  cases subject with
  | none => exact .pure (by simp)
  | some subject =>
    apply Sound.andThen_knowing
      (.quiet (externalConstructor?_walks _ _ _) (externalConstructor?_quiet _ _ _))
      (P := fun found => ∀ ctor symbol, found = some (ctor, symbol) → s.Supplies ctor true symbol)
      fun _ ran => of_externalConstructor?_ok (fun ctor same => member ctor (congrArg some same))
        (of_lift_ok ran).2
    intro external supplied
    split
    · rename_i ctor symbol
      exact (callExternal_sound hl (supplied ctor symbol rfl) object h').discard
    · exact hl.body_calling _ _ _ fun c => (callCompiled_calling hl c isThis h').discard

theorem construct_sound (hl : l.Sound s) (cls : DeclId) {args : List Operand}
    (h : ∀ v ∈ args, U v.value) : Sound s U (construct l cls args) fun v => [v.value] := by
  have rest (obj : ValueId) : Sound s (fun v => v ∈ [obj] ∨ U v) (do
      runConstructor l cls cls obj args
      return .boxed obj (.instanceOf cls) : Emit Operand) fun v => [v.value] := by
    apply (runConstructor_sound hl _ _ (by simp) fun v inside => .inr (h v inside)).andThen
    exact fun _ => .pure (by simp [Operand.boxed])
  apply (Sound.quiet (Compile.layoutOf_walks cls) (Compile.layoutOf_quiet cls)).andThen
  intro layout
  apply (Sound.write (.alloc _ _)).bind
  intro obj
  exact .ite ((installTable_sound hl cls (by simp)).andThen fun _ => rest obj) (rest obj)

theorem initializeProperty_sound (hl : l.Sound s) (owner : DeclId) (layout : ClassLayout)
    {this : ValueId} (d : Decl) (start : ExprId) (h : U this) :
    Sound s U (initializeProperty l owner layout this d start) fun _ => [] := by
  unfold initializeProperty
  split
  · exact (Sound.text _).andThen fun _ => (Sound.declName _).andThen fun _ => .fail _
  · apply (hl.expr _).bind
    intro v
    apply (hl.coerced _ (by simp)).bind
    intro value
    exact storeField_sound _ _ (by simp [h]) (by simp)

theorem runInitializers_sound (hl : l.Sound s) (owner : DeclId) :
    Sound s U (runInitializers l owner) fun _ => [] := by
  apply Sound.program.andThen
  intro p
  apply (Sound.asks _).andThen
  intro c
  refine .ite ?_ (.pure (by simp))
  apply receiver_sound.bind
  intro object
  apply (boxed_sound (by simp)).bind
  intro this
  apply Sound.get_bind
  intro f
  apply (Sound.quiet (Compile.layoutOf_walks _) (Compile.layoutOf_quiet _)).andThen
  intro layout
  apply Sound.forM
  intro m _
  apply (Sound.asks _).andThen
  intro d
  split
  · exact initializeProperty_sound hl _ _ _ _ (by simp)
  · exact .pure (by simp)

theorem callBaseConstructor_sound (hl : l.Sound s) {args : List Operand}
    (h : ∀ v ∈ args, U v.value) : Sound s U (callBaseConstructor l args) fun v => [v.value] := by
  apply Sound.get_bind
  intro f
  split
  · exact .fail _
  · apply (Sound.asks _).andThen
    intro c
    split
    · exact (Sound.declName _).andThen fun _ => .fail _
    · apply receiver_sound.bind
      intro object
      apply (boxed_sound (by simp)).bind
      intro this
      apply Sound.get_bind
      intro f'
      apply (runConstructor_sound hl _ _ (by simp) fun v inside => by simp [h v inside]).andThen
      intro _
      apply (runInitializers_sound hl _).andThen
      exact fun _ => nullValue_sound _

theorem forwardedArgument_sound (cls param : DeclId) :
    Sound s U (forwardedArgument cls param) fun v => [v.value] := by
  apply (Sound.asks _).andThen
  intro d
  apply Sound.get_bind
  intro f
  split
  · rename_i cell info here
    apply (Sound.text _).andThen
    intro text
    apply (Sound.write (.load _ _ (.inl (.name here)))).bind
    exact fun _ => .pure (by simp [Operand.boxed])
  · exact (Sound.text _).andThen fun _ => (Sound.declName _).andThen fun _ => .fail _

theorem implicitConstructor_sound (hl : l.Sound s) (cls : DeclId) :
    Sound s U (implicitConstructor l cls) fun _ => [] := by
  apply (Sound.asks _).andThen
  intro c
  refine .ite (runInitializers_sound hl cls) ?_
  apply (Sound.asks _).andThen
  intro params
  apply (Sound.mapM _ params fun q _ => forwardedArgument_sound cls q).bind
  intro args
  exact (callBaseConstructor_sound hl fun v inside => .inl (mem_values inside)).discard

/-! ## Properties -/

theorem noProperty_sound (info : Info) (n : Name) : Sound s U (noProperty info n : Emit α) gives :=
  (Sound.infoName _).andThen fun _ => (Sound.text _).andThen fun _ => .fail _

/-- A member that is found can be called on an object. -/
theorem Sound.member {β : Type} {k : Option DeclId → Emit β} {gives : β → List ValueId}
    (chain : List DeclId) (n : Name) (kind : FunctionKind) (isMember : kind.isMember = true)
    (rest : ∀ found, (∀ m, found = some m → s.program.Called m true) → Sound s U (k found) gives) :
    Sound s U (liftM (findMember chain n kind) >>= k) gives := by
  refine Sound.andThen_knowing (.quiet (findMember_walks _ _ _) (findMember_quiet _ _ _))
    (fun _ ran => ?_) rest
  rintro m rfl
  obtain ⟨_, asked⟩ := of_lift_ok ran
  exact Program.called_of_findFunction (by simpa using isMember) chain (Compile.of_asks_ok asked).2

theorem Sound.fieldRef (info : Info) (n : Name) :
    Sound s U (liftM (Compile.fieldRef info n) : Emit (Option FieldRef)) fun _ => [] :=
  .quiet (Compile.fieldRef_walks _ _) (Compile.fieldRef_quiet _ _)

theorem Sound.optionalShape? (info : Info) :
    Sound s U (liftM (Emit.optionalShape? info) : Emit (Option ShapeId)) fun _ => [] :=
  .quiet (optionalShape?_walks _) (optionalShape?_quiet _)

/-- A call on an object. -/
theorem callOn_sound (hl : l.Sound s) (d : DeclId) {object : Operand} (cls : DeclId)
    {args : List Operand} (called : s.program.Called d true) (h : U object.value)
    (h' : ∀ v ∈ args, U v.value) :
    Sound s U (callDecl l d (some ⟨object, cls⟩) args) fun v => [v.value] := by
  refine callDecl_sound hl d called ?_ h'
  rintro r ⟨⟩
  exact h

theorem readInstance_sound (hl : l.Sound s) {object : Operand} (cls : DeclId) (n : Name)
    (h : U object.value) : Sound s U (readInstance l object cls n) fun v => [v.value] := by
  apply (Sound.asks _).andThen
  intro chain
  apply Sound.member _ _ _ rfl
  intro getter called
  split
  · rename_i m
    exact callOn_sound hl _ _ (called m rfl) h (by simp)
  · apply (Sound.fieldRef _ _).andThen
    intro field
    split
    · exact loadRef_sound _ _ h
    · apply Sound.member _ _ _ rfl
      intro method _
      split
      · exact boundMethod_sound hl _ _ h
      · exact noProperty_sound _ _

theorem readField_sound {object : Operand} (n : Name) (h : U object.value) :
    Sound s U (readField object n) fun v => [v.value] := by
  apply (Sound.fieldRef _ _).andThen
  intro field
  split
  · exact loadRef_sound _ _ h
  · exact noProperty_sound _ _

theorem unwrap_sound (hl : l.Sound s) {v : Operand} (shape : ShapeId) (h : U v.value) :
    Sound s U (unwrap l v shape) fun v => [v.value] :=
  (Sound.quiet (Compile.unionShape_walks _) (Compile.unionShape_quiet _)).andThen fun _ =>
    unionExtract_sound hl _ _ h

theorem readProperty_sound (hl : l.Sound s) {v : Operand} (n : Name) (h : U v.value) :
    Sound s U (readProperty l v n) fun v => [v.value] := by
  apply (toBoxed_sound h).bind
  intro object
  split
  · exact readInstance_sound hl _ _ (by simp)
  · exact (Sound.text _).andThen fun _ => .fail _
  · apply (Sound.optionalShape? _).andThen
    intro shape
    split
    · exact (unwrap_sound hl _ (by simp)).bind fun _ => hl.readProperty _ _ (by simp)
    · exact readField_sound _ (by simp)

theorem writeField_sound (hl : l.Sound s) {object value : Operand} (n : Name) (h : U object.value)
    (h' : U value.value) : Sound s U (writeField l object n value) fun v => [v.value] := by
  apply (Sound.fieldRef _ _).andThen
  intro field
  split
  · exact noProperty_sound _ _
  · apply (hl.coerced _ h').bind
    intro p
    apply (storeField_sound _ _ (by simp [h]) (by simp)).andThen
    exact fun _ => .pure (by simp [Operand.boxed])

/-- A setter that is found can be called on the object. -/
theorem of_setter?_ok {w w' : Work} {info : Info} {n : Name} {found : Option (DeclId × DeclId)}
    (ran : setter? info n s w = .ok found w') :
    ∀ m cls, found = some (m, cls) → s.program.Called m true := by
  rintro m cls rfl
  unfold setter? at ran
  split at ran
  · obtain ⟨chain, w₁, ran₁, ran⟩ := Compile.of_bind_ok ran
    obtain ⟨setter, w₂, ran₂, ran⟩ := Compile.of_bind_ok ran
    cases setter with
    | none => cases ran
    | some m' =>
      cases ran
      exact Program.called_of_findFunction (by simp [FunctionKind.isMember]) chain
        (Compile.of_asks_ok ran₂).2
  · cases ran

theorem writeProperty_sound (hl : l.Sound s) {v value : Operand} (n : Name) (h : U v.value)
    (h' : U value.value) : Sound s U (writeProperty l v n value) fun v => [v.value] := by
  apply (toBoxed_sound h).bind
  intro object
  apply Sound.andThen_knowing (.quiet (setter?_walks _ _) (setter?_quiet _ _))
    (P := fun found => ∀ m cls, found = some (m, cls) → s.program.Called m true)
    fun _ ran => of_setter?_ok (of_lift_ok ran).2
  intro setter called
  split
  · rename_i m cls
    apply (toBoxed_sound (by simp [h'])).bind
    intro stored
    apply (callOn_sound hl _ _ (called m cls rfl) (by simp) (by simp)).discard.andThen
    exact fun _ => .pure (by simp)
  · apply (Sound.optionalShape? _).andThen
    intro shape
    split
    · exact (unwrap_sound hl _ (by simp)).bind fun _ =>
        hl.writeProperty _ _ _ (by simp) (by simp [h'])
    · exact writeField_sound hl _ (by simp) (by simp [h'])

theorem memberOwner_sound : Sound s U memberOwner fun _ => [] := by
  apply Sound.get_bind
  intro f
  split
  · exact .pure (by simp)
  · exact .fail _

theorem readParent_sound (hl : l.Sound s) (n : Name) :
    Sound s U (readParent l n) fun v => [v.value] := by
  apply memberOwner_sound.andThen
  intro owner
  apply receiver_sound.bind
  intro this
  apply Sound.get_bind
  intro f
  apply (Sound.asks _).andThen
  intro chain
  apply Sound.member _ _ _ rfl
  intro getter called
  split
  · rename_i m
    exact callOn_sound hl _ _ (called m rfl) (by simp) (by simp)
  · apply Sound.member _ _ _ rfl
    intro method _
    split
    · exact boundMethod_sound hl _ _ (by simp)
    · exact hl.readProperty _ _ (by simp)

theorem callParentMethod_sound (hl : l.Sound s) (n : Name) {args : List Operand}
    (h : ∀ v ∈ args, U v.value) : Sound s U (callParentMethod l n args) fun v => [v.value] := by
  apply memberOwner_sound.andThen
  intro owner
  apply (Sound.asks _).andThen
  intro chain
  apply Sound.member _ _ _ rfl
  intro method called
  split
  · exact (Sound.declName _).andThen fun _ => (Sound.text _).andThen fun _ => .fail _
  · rename_i m
    apply receiver_sound.bind
    intro this
    apply Sound.get_bind
    intro f
    exact callOn_sound hl _ _ (called m rfl) (by simp) fun v inside => by simp [h v inside]

/-! ## Static members -/

theorem Sound.static (n : Name) (chain : List DeclId) :
    Sound s U (liftM (findStatic n chain) : Emit (Option DeclId)) fun _ => [] :=
  .quiet (findStatic_walks _ _) (findStatic_quiet _ _)

/-- A static method that is found can be called without an object. -/
theorem of_findStaticMethod_ok {w w' : Work} {n : Name} {chain : List DeclId}
    {found : Option DeclId} (ran : findStaticMethod n chain s w = .ok found w') :
    ∀ m, found = some m → s.program.Called m false := by
  rintro m rfl
  obtain ⟨p, w₁, ran₁, ran⟩ := Compile.of_bind_ok ran
  cases ran₁
  obtain ⟨method, w₂, ran₂, ran⟩ := Compile.of_bind_ok ran
  obtain ⟨isFound, _⟩ := EStateM.Result.ok.inj ran
  obtain ⟨_, isStatic⟩ := Option.filter_eq_some_iff.mp isFound
  cases isDecl : s.program.decl m with
  | error e => simp [isDecl, Except.toOption] at isStatic
  | ok decl => exact .ofClass isDecl (by simpa [isDecl, Except.toOption] using isStatic)

theorem Sound.staticMethod (n : Name) (chain : List DeclId) :
    Sound s U (liftM (findStaticMethod n chain) : Emit (Option DeclId)) fun _ => [] :=
  .quiet (findStaticMethod_walks _ _) (findStaticMethod_quiet _ _)

theorem staticVariable_sound (prop : DeclId) : Sound s U (staticVariable prop) fun _ => [] := by
  apply (Sound.quiet (Compile.staticGlobal_walks _) (Compile.staticGlobal_quiet _)).andThen
  intro g
  apply (Sound.asks _).andThen
  intro d
  exact (closedInfoOf_sound _).andThen fun _ => .pure (by simp)

theorem storeStatic_sound (hl : l.Sound s) (g : GlobalId) (info : Info) {value : Operand}
    (h : U value.value) : Sound s U (storeStatic l g info value) fun v => [v.value] := by
  apply (hl.coerced _ h).bind
  intro p
  apply (Sound.write (.plain _)).bind
  intro addr
  apply (Sound.write (.store (by simp) (by simp))).andThen
  exact fun _ => .pure (by simp [Operand.boxed])

theorem readStatic_sound (hl : l.Sound s) (cls : DeclId) (n : Name) :
    Sound s U (readStatic l cls n) fun v => [v.value] := by
  apply (Sound.asks _).andThen
  intro chain
  apply (Sound.static _ _).andThen
  intro prop
  cases prop with
  | some prop =>
    apply (staticVariable_sound _).andThen
    intro place
    apply (Sound.write (.plain _)).bind
    intro addr
    apply (Sound.text _).andThen
    intro text
    exact (Sound.write (.load _ _ (by simp))).bind fun _ => .pure (by simp [Operand.boxed])
  | none =>
    apply (Sound.staticMethod _ _).andThen
    intro method
    cases method with
    | some m => exact staticMethodValue_sound hl m
    | none => exact (Sound.declName _).andThen fun _ => (Sound.text _).andThen fun _ => .fail _

theorem writeStatic_sound (hl : l.Sound s) (cls : DeclId) (n : Name) {value : Operand}
    (h : U value.value) : Sound s U (writeStatic l cls n value) fun v => [v.value] := by
  apply (Sound.asks _).andThen
  intro chain
  apply (Sound.static _ _).andThen
  intro prop
  cases prop with
  | some prop => exact (staticVariable_sound _).andThen fun _ => storeStatic_sound hl _ _ h
  | none => exact (Sound.declName _).andThen fun _ => (Sound.text _).andThen fun _ => .fail _

theorem callStatic_sound (hl : l.Sound s) (cls : DeclId) (n : Name) {args : List Operand}
    (h : ∀ v ∈ args, U v.value) : Sound s U (callStatic l cls n args) fun v => [v.value] := by
  apply (Sound.asks _).andThen
  intro chain
  apply (Sound.staticMethod _ _).andThen_knowing
    (P := fun found => ∀ m, found = some m → s.program.Called m false)
    fun _ ran => of_findStaticMethod_ok (of_lift_ok ran).2
  intro method called
  cases method with
  | some m => exact callDecl_sound hl m (called m rfl) (by simp) h
  | none =>
    exact (readStatic_sound hl cls n).bind fun _ =>
      callValue_sound hl (by simp) fun v inside => .inr (h v inside)

theorem initializeStatics_sound (hl : l.Sound s) (cls : DeclId) :
    Sound s U (initializeStatics l cls) fun _ => [] := by
  apply (Sound.asks _).andThen
  intro c
  apply Sound.forM
  intro m _
  apply (Sound.asks _).andThen
  intro d
  split
  · apply (staticVariable_sound _).andThen
    intro place
    exact (hl.expr _).bind fun _ => (storeStatic_sound hl _ _ (by simp)).discard
  · exact .pure (by simp)

/-! ## Variables -/

theorem readName_sound (hl : l.Sound s) (n : Name) :
    Sound s U (readName l n) fun v => [v.value] := by
  apply (Sound.text n).andThen
  intro text
  apply (lookup_sound n).bind
  intro binding
  split
  · exact (Sound.write (.load _ _ (by simp [cellOf]))).bind fun _ => .pure (by simp [Operand.boxed])
  · apply (Sound.write (.plain _)).bind
    intro addr
    exact (Sound.write (.load _ _ (by simp))).bind fun _ => .pure (by simp [Operand.boxed])
  · exact functionValue_sound hl _
  · exact .fail _
  · exact .fail _

theorem variablePlace_sound (n : Name) : Sound s U (variablePlace n) fun place => [place.1] := by
  apply (lookup_sound n).bind
  intro binding
  split
  · exact .pure (by simp [cellOf])
  · exact (Sound.write (.plain _)).bind fun _ => .pure (by simp)
  · exact (Sound.text n).andThen fun _ => .fail _
  · exact (Sound.text n).andThen fun _ => .fail _
  · exact (Sound.text n).andThen fun _ => .fail _

theorem checkRebinding_sound (n : Name) (current new : Info) :
    Sound s U (checkRebinding n current new) fun _ => [] := by
  unfold checkRebinding
  split
  · apply (Sound.quiet Compile.registry_walks Compile.registry_quiet).andThen
    intro r
    exact .ite (.pure (by simp)) ((Sound.text n).andThen fun _ => .fail _)
  · exact .pure (by simp)

theorem assignName_sound (hl : l.Sound s) (n : Name) {v : Operand} (h : U v.value) :
    Sound s U (assignName l n v) fun v => [v.value] := by
  apply (variablePlace_sound n).bind
  intro place
  apply (checkRebinding_sound _ _ _).andThen
  intro _
  apply (hl.coerced _ (by simp [h])).bind
  intro p
  apply (Sound.write (.store (by simp) (by simp))).andThen
  exact fun _ => .pure (by simp [Operand.boxed])

theorem className?_sound (e : ExprId) : Sound s U (className? e) fun _ => [] := by
  apply Sound.program.andThen
  intro p
  split
  · apply (lookup_sound _).bind
    intro binding
    split
    · exact .pure (by simp)
    · exact .pure (by simp)
  · exact .pure (by simp)

theorem assign_sound (hl : l.Sound s) (target value : ExprId) :
    Sound s U (assign l target value) fun v => [v.value] := by
  apply Sound.program.andThen
  intro p
  split
  · exact (hl.expr _).bind fun _ => assignName_sound hl _ (by simp)
  · apply (className?_sound _).andThen
    intro cls
    split
    · exact (hl.expr _).bind fun _ => writeStatic_sound hl _ _ (by simp)
    · apply (hl.expr _).bind
      intro object
      apply (toBoxed_sound (by simp)).bind
      intro place
      exact (hl.expr _).bind fun _ => hl.writeProperty _ _ _ (by simp) (by simp)
  · exact .fail _

/-! ## Operators -/

theorem truthy_sound {v : Operand} (h : U v.value) : Sound s U (truthy v) fun p => [p] := by
  have differs (c : Const) : Sound s U (do
      let x ← raw v
      Draft.compare .ne x (← Draft.plain c) "truthy" : Emit ValueId) fun p => [p] := by
    apply (raw_sound h).bind
    intro x
    exact (Sound.write (.plain _)).bind fun _ => .write (.compare _ _ (by simp) (by simp))
  unfold truthy
  split
  · exact raw_sound h
  · exact differs _
  · exact differs _
  · apply (Sound.optionalShape? _).andThen
    intro shape
    split
    · exact isPresent_sound _ h
    · refine .ite (.write (.plain _)) ?_
      apply (boxed_sound h).bind
      intro p
      exact (Sound.write (.plain _)).bind fun _ => .write (.compare _ _ (by simp) (by simp))

theorem meetsNull_sound (v other : Operand) : Sound s U (meetsNull v other) fun _ => [] :=
  .ite ((Sound.optionalShape? _).andThen fun _ => .pure (by simp)) (.pure (by simp))

theorem comparedWithNull?_sound {a b : Operand} (h : U a.value) (h' : U b.value) :
    Sound s U (comparedWithNull? a b) fun v => v.toList.flatMap fun v => [v.value] := by
  apply (meetsNull_sound a b).andThen
  intro first
  refine .ite (.pure (by simp [h])) ?_
  apply (meetsNull_sound b a).andThen
  intro second
  exact .ite (.pure (by simp [h'])) (.pure (by simp))

theorem equal_sound {a b : Operand} (h : U a.value) (h' : U b.value) :
    Sound s U (equal a b) fun p => [p] := by
  apply (comparedWithNull?_sound h h').bind
  intro found
  split
  · exact isAbsent_sound (by simp)
  · dsimp only
    split
    · apply (raw_sound (by simp [h])).bind
      intro x
      apply (raw_sound (by simp [h'])).bind
      intro y
      exact .write (.compare _ _ (by simp) (by simp))
    · apply (boxed_sound (by simp [h])).bind
      intro x
      apply (boxed_sound (by simp [h'])).bind
      intro y
      exact .write (.compare _ _ (by simp) (by simp))

/-- Both sides are read, and a step makes one value of them. -/
theorem bothRaw_sound {a b : Operand} {β : Type} {step : ValueId → ValueId → Writing ValueId}
    {result : ValueId → β} {gives : β → List ValueId} (h : U a.value) (h' : U b.value)
    (sound : ∀ {V : ValueId → Prop} {x y}, V x → V y → Writing.Sound V (step x y) (fun v => [v])
    fun _ _ => False)
    (isResult : ∀ v, ∀ v' ∈ gives (result v), v' = v) :
    Sound s U (do
      let x ← raw a
      let y ← raw b
      return result (← step x y) : Emit β) gives := by
  apply (raw_sound h).bind
  intro x
  apply (raw_sound (by simp [h'])).bind
  intro y
  apply (Sound.write (sound (by simp) (by simp))).bind
  intro v
  exact .pure fun v' isGiven => .inl (by simp [isResult v v' isGiven])

theorem numeric_sound (op : Source.BinaryOp) {a b : Operand} (h : U a.value) (h' : U b.value) :
    Sound s U (numeric op a b) fun v => v.toList.flatMap fun v => [v.value] := by
  unfold numeric
  split
  · exact bothRaw_sound h h' (.binary _ _) (by simp [Operand.raw])
  · exact bothRaw_sound h h' (.compare _ _) (by simp [Operand.raw])
  · exact .pure (by simp)

theorem unsupportedBinary_sound (op : Source.BinaryOp) (a b : Operand) :
    Sound s U (unsupportedBinary op a b : Emit α) gives :=
  (Sound.infoName _).andThen fun _ => (Sound.infoName _).andThen fun _ => .fail _

theorem strictBinary_sound (op : Source.BinaryOp) {a b : Operand} (h : U a.value) (h' : U b.value) :
    Sound s U (strictBinary op a b) fun v => [v.value] := by
  unfold strictBinary
  split
  · exact (equal_sound h h').bind fun _ => .pure (by simp [Operand.raw])
  · apply (equal_sound h h').bind
    intro same
    exact (Sound.write (.not _ (by simp))).bind fun _ => .pure (by simp [Operand.raw])
  · exact bothRaw_sound h h' (.binary _ _) (by simp [Operand.raw])
  · apply (numeric_sound _ h h').bind
    intro v
    split
    · exact .pure (by simp)
    · exact unsupportedBinary_sound _ _ _
  · exact unsupportedBinary_sound _ _ _

theorem logical_sound (hl : l.Sound s) (isAnd : Bool) (lhs rhs : ExprId) :
    Sound s U (logical l isAnd lhs rhs) fun v => [v.value] := by
  apply (Sound.write (.alloc _ _)).bind
  intro result
  apply (hl.expr _).bind
  intro v
  apply (truthy_sound (by simp)).bind
  intro left
  apply (Sound.write (.store (by simp) (by simp))).andThen
  intro _
  have aside : Sound s (fun v' => v' ∈ [left] ∨ v' ∈ [v.value] ∨ v' ∈ [result] ∨ U v') (do
      let right ← truthy (← l.expr rhs)
      Draft.store right result : Emit Unit) fun _ => [] := by
    apply (hl.expr _).bind
    intro w
    exact (truthy_sound (by simp)).bind fun _ => .write (.store (by simp) (by simp))
  have after : Sound s (fun v' => v' ∈ [left] ∨ v' ∈ [v.value] ∨ v' ∈ [result] ∨ U v') (do
      return .raw (← Draft.load .i1 result "logic") .boolean : Emit Operand) fun v => [v.value] :=
    (Sound.write (.load _ _ (by simp))).bind fun _ => .pure (by simp [Operand.raw])
  have whole := Sound.detour "logic.rhs" "logic.done"
    (fun way done => if isAnd then .condBr left way done else .condBr left done way)
    (.pure (by simp) : Sound s _ (Pure.pure ⟨⟩) fun _ => []) ?_ ?_ aside after
  · simp only [bind_assoc, pure_bind] at whole
    cases isAnd with
    | true => exact whole
    | false => exact whole
  · cases isAnd <;> simp [Exit.operands]
  · cases isAnd <;> simp [Exit.targets]

theorem binary_sound (hl : l.Sound s) (op : Source.BinaryOp) (lhs rhs : ExprId) :
    Sound s U (binary l op lhs rhs) fun v => [v.value] := by
  unfold binary
  split
  · exact logical_sound hl _ _ _
  · exact logical_sound hl _ _ _
  · apply (hl.expr _).bind
    intro a
    exact (hl.expr _).bind fun _ => strictBinary_sound _ (by simp) (by simp)

/-- The object that an update changes. -/
def UpdateTarget.values : UpdateTarget → List ValueId
  | .name _ => []
  | .property object _ => [object.value]

theorem updateTarget_sound (hl : l.Sound s) (operand : ExprId) :
    Sound s U (updateTarget l operand) fun (old, target) => old.value :: target.values := by
  apply Sound.program.andThen
  intro p
  split
  · exact (readName_sound hl _).bind fun _ => .pure (by simp [UpdateTarget.values])
  · apply (hl.expr _).bind
    intro object
    apply (toBoxed_sound (by simp)).bind
    intro place
    exact (hl.readProperty _ _ (by simp)).bind fun _ => .pure (by simp [UpdateTarget.values])
  · exact .fail _

theorem update_sound (hl : l.Sound s) (increment before : Bool) (operand : ExprId) :
    Sound s U (update l increment before operand) fun v => [v.value] := by
  apply (updateTarget_sound hl operand).bind
  rintro ⟨old, target⟩
  refine .ite ((Sound.infoName _).andThen fun _ => .fail _) ?_
  apply (raw_sound (by simp)).bind
  intro x
  apply (Sound.write (.plain _)).bind
  intro one
  apply (Sound.write (.binary _ _ (by simp) (by simp))).bind
  intro new
  have result (V : ValueId → Prop) (isNew : V new) (isOld : V x) : Sound s V
      (pure (.raw (if before then new else x) .number) : Emit Operand) fun v => [v.value] := by
    apply Sound.pure
    intro v isGiven
    cases before with
    | true => cases List.mem_singleton.mp isGiven; exact isNew
    | false => cases List.mem_singleton.mp isGiven; exact isOld
  dsimp only
  split
  · apply (assignName_sound hl _ (by simp [Operand.raw])).discard.andThen
    exact fun _ => result _ (by simp) (by simp)
  · apply (hl.writeProperty _ _ _ (by simp [UpdateTarget.values])
      (by simp [Operand.raw])).discard.andThen
    exact fun _ => result _ (by simp) (by simp)

theorem negate_sound {v : Operand} (h : U v.value) : Sound s U (negate v) fun v => [v.value] := by
  refine .ite ?_ ((Sound.infoName _).andThen fun _ => .fail _)
  apply (raw_sound h).bind
  intro x
  exact (Sound.write (.fneg _ (by simp))).bind fun _ => .pure (by simp [Operand.raw])

theorem unary_sound (hl : l.Sound s) (op : UnaryOp) (operand : ExprId) :
    Sound s U (unary l op operand) fun v => [v.value] := by
  cases op with
  | neg => exact (hl.expr _).bind fun _ => negate_sound (by simp)
  | not =>
    apply (hl.expr _).bind
    intro v
    apply (truthy_sound (by simp)).bind
    intro isTrue
    exact (Sound.write (.not _ (by simp))).bind fun _ => .pure (by simp [Operand.raw])
  | _ => exact update_sound hl _ _ _

/-! ## Calls -/

theorem callFound_sound (hl : l.Sound s) {this : Operand} (n : Name) (args : List ExprId)
    (method : Option (DeclId × DeclId))
    (called : ∀ cls m, method = some (cls, m) → s.program.Called m true) (h : U this.value) :
    Sound s U (callFound l this n args method) fun v => [v.value] := by
  unfold callFound
  split
  · rename_i cls m
    apply (hl.exprs _).bind
    intro args
    apply (virtualSlot_sound hl _ _).andThen
    intro slot
    split
    · exact virtualCall_sound hl _ _ _ (.inr h) fun v inside => .inl (mem_values inside)
    · exact callOn_sound hl _ _ (called cls m rfl) (.inr h) fun v inside => .inl (mem_values inside)
  · apply (hl.readProperty _ _ h).bind
    intro f
    exact (hl.exprs _).bind fun _ =>
      callValue_sound hl (by simp) fun v inside => .inl (mem_values inside)

theorem objectCall_sound (hl : l.Sound s) (object : ExprId) (n : Name) (args : List ExprId) :
    Sound s U (objectCall l object n args) fun v => [v.value] := by
  apply (hl.expr _).bind
  intro v
  apply (toBoxed_sound (by simp)).bind
  intro this
  dsimp only
  split
  · apply (Sound.asks _).andThen
    intro chain
    apply Sound.member _ _ _ rfl
    intro found called
    refine callFound_sound hl n args _ (fun cls m isMethod => ?_) (by simp)
    obtain ⟨m', isFound, same⟩ := Option.map_eq_some_iff.mp isMethod
    cases same
    exact called m isFound
  · refine callFound_sound hl n args none ?_ (by simp)
    rintro cls m ⟨⟩

theorem memberCall_sound (hl : l.Sound s) (object : ExprId) (n : Name) (args : List ExprId) :
    Sound s U (memberCall l object n args) fun v => [v.value] := by
  apply Sound.program.andThen
  intro p
  split
  · exact (hl.exprs _).bind fun _ =>
      callParentMethod_sound hl _ fun v inside => .inl (mem_values inside)
  · apply (className?_sound _).andThen
    intro cls
    split
    · exact (hl.exprs _).bind fun _ =>
        callStatic_sound hl _ _ fun v inside => .inl (mem_values inside)
    · exact objectCall_sound hl _ _ _

/-- A name that means a function means one that a statement declares. -/
theorem named_of_lookup_ok {w w' : Work} {f f' : Frame} {g : Sketch} {n : Name} {d : DeclId}
    (stands : f.Stands s w g) (ran : lookup n f s w = .ok (some (.function d), f') w') :
    s.program.Named d := by
  obtain ⟨⟨isMeant, _⟩, _⟩ := (EStateM.Result.ok.inj ran).imp_left Prod.mk.inj
  cases here : f.scope.lookup n with
  | some binding =>
    simp only [here] at isMeant
    cases isMeant
    exact stands.declares.named here
  | none =>
    simp only [here] at isMeant
    exact stands.sound.declares.named isMeant

theorem nameCall_sound (hl : l.Sound s) (n : Name) (args : List ExprId) (target : Option DeclId)
    (reached : ∀ d, target = some d → s.program.Named d) :
    Sound s U (nameCall l n args target) fun v => [v.value] := by
  have declared (V : ValueId → Prop) (d : DeclId) (named : s.program.Named d) : Sound s V (do
      callDecl l d none (← l.exprs args) : Emit Operand) fun v => [v.value] :=
    (hl.exprs _).bind fun _ =>
      callDecl_sound hl _ (.byName named) (by simp) fun v inside => .inl (mem_values inside)
  have held (V : ValueId → Prop) : Sound s V (do
      let f ← readName l n
      callValue l f (← l.exprs args) : Emit Operand) fun v => [v.value] := by
    apply (readName_sound hl n).bind
    intro f
    exact (hl.exprs _).bind fun _ =>
      callValue_sound hl (by simp) fun v inside => .inl (mem_values inside)
  apply (lookup_sound n).bind_knowing
    (P := fun binding => ∀ d, binding = some (.function d) → s.program.Named d)
  · rintro _ _ _ _ _ _ stands ran d rfl
    exact named_of_lookup_ok stands ran
  intro binding named
  split
  · rename_i d
    exact declared _ d (named d rfl)
  · exact held _
  · exact held _
  · exact (Sound.text n).andThen fun _ => .fail _
  · rename_i d
    exact declared _ d (reached d rfl)
  · exact (Sound.text n).andThen fun _ => .fail _

theorem call_sound (hl : l.Sound s) (callee : ExprId) (args : List ExprId) (target : Option DeclId)
    (reached : ∀ d, target = some d → s.program.Named d) :
    Sound s U (call l callee args target) fun v => [v.value] := by
  apply Sound.program.andThen
  intro p
  split
  · exact (hl.exprs _).bind fun _ =>
      callBaseConstructor_sound hl fun v inside => .inl (mem_values inside)
  · exact memberCall_sound hl _ _ _
  · exact nameCall_sound hl _ _ _ reached
  · apply (hl.expr _).bind
    intro f
    exact (hl.exprs _).bind fun _ =>
      callValue_sound hl (by simp) fun v inside => .inl (mem_values inside)

/-! ## Properties and objects -/

theorem property_sound (hl : l.Sound s) (object : ExprId) (n : Name) :
    Sound s U (property l object n) fun v => [v.value] := by
  apply Sound.program.andThen
  intro p
  split
  · exact readParent_sound hl _
  · apply (className?_sound _).andThen
    intro cls
    split
    · exact readStatic_sound hl _ _
    · exact (hl.expr _).bind fun _ => hl.readProperty _ _ (by simp)

theorem propertyValues_sound (hl : l.Sound s) (fields : List (Name × ExprId))
    (values : List (Name × Operand)) (h : ∀ field ∈ values, U field.2.value) :
    Sound s U (propertyValues l fields values) fun values =>
      values.flatMap fun field => [field.2.value] := by
  induction fields generalizing values U with
  | nil =>
    apply Sound.pure
    intro v isGiven
    obtain ⟨field, inside, isValue⟩ := List.mem_flatMap.mp isGiven
    cases List.mem_singleton.mp isValue
    exact h field inside
  | cons field rest ih =>
    apply (hl.expr _).bind
    intro v
    apply (toBoxed_sound (by simp)).bind
    intro boxed
    apply ih
    rintro ⟨n, value⟩ inside
    rcases Table.mem_of_mem_put inside with isNew | isOld
    · cases isNew
      exact .inl (by simp)
    · exact .inr (.inr (h _ isOld))

theorem objectLiteral_sound (hl : l.Sound s) (fields : List (Name × ExprId)) :
    Sound s U (objectLiteral l fields) fun v => [v.value] := by
  apply (propertyValues_sound hl fields [] (by simp)).bind
  intro values
  apply (Sound.quiet (Compile.shapeOfObject_walks _) (Compile.shapeOfObject_quiet _)).andThen
  intro shape
  apply (Sound.quiet (Compile.objectShape_walks _) (Compile.objectShape_quiet _)).andThen
  intro object
  apply (Sound.write (.alloc _ _)).bind
  intro obj
  refine Sound.andThen (.forM _ ?_) fun _ => .pure (by simp [Operand.boxed])
  rintro ⟨⟨n, v⟩, i⟩ inside
  have isValue : (n, v) ∈ values := List.fst_mem_of_mem_zipIdx inside
  refine storeField_sound _ _ (by simp) (.inr (.inl (List.mem_flatMap.mpr ⟨_, isValue, ?_⟩)))
  simp

/-! ## All expressions -/

/-- One case per kind of expression. -/
theorem exprKind_sound (hl : l.Sound s) {id : ExprId} (kind : ExprKind)
    (isKind : (s.program.expr id).kind = kind) :
    Sound s U (exprKind l kind) fun v => [v.value] := by
  have constant (c : Const) (info : Info) : Sound s U (do
      return .raw (← Draft.plain c) info : Emit Operand) fun v => [v.value] :=
    (Sound.write (.plain _)).bind fun _ => .pure (by simp [Operand.raw])
  cases kind with
  | number x => exact constant _ _
  | text t => exact (Sound.text _).andThen fun _ => constant _ _
  | bool b => exact constant _ _
  | null => exact nullValue_sound _
  | undefined => exact nullValue_sound _
  | ident n => exact readName_sound hl n
  | receiver => exact receiver_sound
  | parent => exact .fail _
  | property object n => exact property_sound hl _ _
  | call callee args target =>
    refine call_sound hl _ _ _ fun d isTarget => ?_
    rw [isTarget] at isKind
    exact .reached isKind
  | construct cls args =>
    exact (hl.exprs _).bind fun _ => construct_sound hl _ fun v inside => .inl (mem_values inside)
  | function d => exact functionValue_sound hl d
  | object fields => exact objectLiteral_sound hl _
  | assign target value => exact assign_sound hl _ _
  | binary op lhs rhs => exact binary_sound hl _ _ _
  | unary op operand => exact unary_sound hl _ _
  | convert e ty =>
    apply (hl.expr _).bind
    intro v
    exact (infoOf_sound _).andThen fun _ => hl.coerce _ _ (by simp)

theorem expr_sound (hl : l.Sound s) (id : ExprId) : Sound s U (expr l id) fun v => [v.value] := by
  have sound : Sound s U (locate (s.program.expr id).span (exprKind l (s.program.expr id).kind))
      fun v => [v.value] := (exprKind_sound hl _ rfl).locate
  exact ⟨fun stands uses ran => sound.goes stands uses ran⟩

end Emit

end ShapeCompiler
