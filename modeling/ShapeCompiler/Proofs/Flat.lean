import ShapeCompiler.Proofs.Bodies
import ShapeCompiler.Proofs.Limits
import ShapeCompiler.Proofs.Nesting

/-!
# Parts that nest nothing

What calls none of the steps that are tied together level by level does not nest too deep, wherever
it is.

* `Compile.Flat`, `Emit.Flat`: the step does not nest too deep in any state;
* `Setup.TypesEnd`: lowering a type and laying a class out are such steps.

The instances follow the definitions, so that it is found out by inference for what is put together.
-/

namespace ShapeCompiler

open Source Code

/-- In the program types are put together from earlier ones, and no class is laid out for its own
layout. -/
class Setup.TypesEnd (s : Setup) : Prop where
  founded : s.program.TypesFounded
  apart : s.program.LayoutsApart

/-! ## Parts without a frame -/

namespace Compile

variable {s : Setup} {α β : Type}

/-- Whatever the state, the step does not nest too deep. -/
class Flat (s : Setup) (m : Compile α) : Prop where
  ended : ∀ w, Ended m s w

namespace Flat

instance pure (a : α) : Flat s (Pure.pure a) := ⟨fun _ _ _ => by rintro ⟨⟩⟩

instance modifyGet (f : Work → α × Work) : Flat s (MonadState.modifyGet f : Compile α) :=
  ⟨fun _ _ _ => by rintro ⟨⟩⟩

instance modify (f : Work → Work) : Flat s (modify f : Compile PUnit) := modifyGet _

instance get : Flat s (MonadState.get : Compile Work) := ⟨fun _ _ _ => by rintro ⟨⟩⟩

instance read : Flat s (MonadReader.read : Compile Setup) := ⟨fun _ _ _ => by rintro ⟨⟩⟩

instance bind {m : Compile α} {k : α → Compile β} [first : Flat s m] [rest : ∀ a, Flat s (k a)] :
    Flat s (m >>= k) := by
  refine ⟨fun w e w' ran => ?_⟩
  rw [bind_apply] at ran
  cases ran₁ : m s w with
  | error e₁ w₁ =>
    rw [ran₁] at ran
    cases ran
    exact first.ended w e w' ran₁
  | ok a w₁ =>
    rw [ran₁] at ran
    exact (rest a).ended w₁ e w' ran

/-- What follows is flat, whatever it goes on with. -/
theorem next {m : Compile α} {k : α → Compile β} [Flat s m] (rest : ∀ a, Flat s (k a)) :
    Flat s (m >>= k) := bind

instance mapM {k : α → Compile β} [∀ a, Flat s (k a)] (as : List α) : Flat s (as.mapM k) := by
  induction as with
  | nil => exact pure []
  | cons a as ih =>
    rw [List.mapM_cons]
    infer_instance

instance optionMapM {k : α → Compile β} [∀ a, Flat s (k a)] (o : Option α) : Flat s (o.mapM k) := by
  cases o with
  | none => exact pure none
  | some a => exact bind (k := fun b => Pure.pure (some b))

instance ite {c : Prop} [Decidable c] {m n : Compile α} [Flat s m] [Flat s n] :
    Flat s (if c then m else n) := by
  split <;> infer_instance

theorem fail {cause : Cause} (h : cause ≠ .tooDeep) : Flat s (fail cause : Compile α) := by
  refine ⟨fun w e w' ran => ?_⟩
  cases ran
  exact h

instance invalid (what : Invalid) : Flat s (invalid what : Compile α) := fail (by simp)

instance unsupported (what : Unsupported) : Flat s (unsupported what : Compile α) := fail (by simp)

/-- A step that fails for few reasons. -/
theorem of_failsOnly {m : Compile α}
    (h : ∀ busy, FailsOnly (· ≠ .tooDeep) s busy m fun _ => True) : Flat s m :=
  ⟨fun w _ _ ran => (h w.interfacesInProgress).ended ran (by simp)⟩

end Flat

instance ask_flat (answer : Except ProgramError α) : Flat s (ask answer) := by
  cases answer with
  | ok a => exact .pure a
  | error e => exact .invalid _

instance program_flat : Flat s program := .next fun _ => inferInstance

instance asks_flat (question : Program → Except ProgramError α) : Flat s (asks question) :=
  .next fun _ => inferInstance

instance runtime_flat : Flat s runtime := .next fun _ => inferInstance

instance registry_flat : Flat s registry := .next fun _ => inferInstance

instance resolve_flat (d : DeclId) (args : List Info) (receiver : Option Info) :
    Flat s (resolve d args receiver) := .next fun _ => inferInstance

instance text_flat (n : Name) : Flat s (text n) := .next fun _ => inferInstance

instance declName_flat (d : DeclId) : Flat s (declName d) := .next fun _ => inferInstance

instance infoName_flat (i : Info) : Flat s (infoName i) := .next fun _ => inferInstance

instance mismatch_flat (expected found : Info) : Flat s (mismatch expected found : Compile α) :=
  .next fun _ => .next fun _ => .fail (by simp)

instance types_flat (f : TypeTable → α × TypeTable) : Flat s (types f) := .modifyGet _

instance code_flat (f : Module → α × Module) : Flat s (code f) := .modifyGet _

instance register_flat (f : Registry → Except RegistryError Registry) : Flat s (register f) :=
  .next fun r => by
    split
    · exact .modifyGet _
    · infer_instance

instance env_flat (id : EnvId) : Flat s (env id) := .next fun r => by split <;> infer_instance

instance objectShape_flat (id : ShapeId) : Flat s (objectShape id) :=
  .next fun r => by split <;> infer_instance

instance unionShape_flat (id : ShapeId) : Flat s (unionShape id) :=
  .next fun r => by split <;> infer_instance

instance intersectionShape_flat (id : ShapeId) : Flat s (intersectionShape id) :=
  .next fun r => by split <;> infer_instance

instance siteOf_flat (d : DeclId) : Flat s (siteOf d) :=
  .next fun w => .next fun p => by split <;> infer_instance

instance define_flat (f : FuncId) (body : Code.Body) : Flat s (define f body) := .modifyGet _

instance recordFunction_flat (key : FunctionKey) (c : CompiledFunction) :
    Flat s (recordFunction key c) :=
  .modifyGet _

instance externalFunction_flat (name : String) (arity : Nat) :
    Flat s (externalFunction name arity) :=
  .next fun w => by split <;> infer_instance

instance declareCompiled_flat (name : String) (arity : Nat) : Flat s (declareCompiled name arity) :=
  .next fun _ => .next fun _ => inferInstance

instance staticGlobal_flat (prop : DeclId) : Flat s (staticGlobal prop) :=
  .next fun w => by split <;> infer_instance

instance syntheticEnv_flat (params : Nat) : Flat s (syntheticEnv params) :=
  .next fun w => by
    split
    · infer_instance
    · unfold addEnv
      infer_instance

instance formals_flat (subject : Subject) : Flat s (formals subject) := by
  cases subject <;> (unfold formals; infer_instance)

instance envPlan_flat (owner : DeclId) : Flat s (envPlan owner) :=
  .next fun d => by split <;> infer_instance

instance shapeOfObject_flat (props : List (Name × Info)) : Flat s (shapeOfObject props) :=
  .of_failsOnly fun _ => .shapeOfObject props

instance freshRecord_flat (base : String) (size : Nat) : Flat s (freshRecord base size) :=
  .of_failsOnly fun _ => .freshRecord base size

/-- The search for captured variables fails for reasons of its own. -/
instance capturesOf_flat (owner : DeclId) (site : Site) (plan : EnvPlan) :
    Flat s (capturesOf owner site plan) := by
  refine .next fun free => .next fun p => .next fun w => ?_
  have settles : Settles (fun _ => True) (· ≠ .tooDeep)
      (({ program := p, work := w, site, free } : Survey).gather owner
          (plan.receiverClass site)) := by
    have rules : ({ program := p, work := w, site, free } : Survey).Rules (fun _ => True)
        (fun _ _ => True) (fun _ => True) (· ≠ .tooDeep) := by
      constructor
      case capture =>
        exact fun _ _ _ _ _ => Survey.capture_keeps _ (fun _ _ _ _ => trivial) (by simp)
      all_goals simp
    exact rules.gather _ trivial
  dsimp only
  split
  · infer_instance
  · rename_i failed
    rw [failed] at settles
    exact .fail settles

/-! ### Types and layouts -/

section Types

variable [types : s.TypesEnd]

instance infoOf_flat (b : Bindings) (t : TypeId) : Flat s (infoOf b t) :=
  .of_failsOnly fun _ => infoOf_shallow types.founded types.apart b t

instance layoutOf_flat (c : DeclId) : Flat s (layoutOf c) :=
  .of_failsOnly fun _ => (layoutOf_shallow types.founded types.apart c)

instance openInfoOf_flat (t : TypeId) : Flat s (openInfoOf t) := .next fun _ => inferInstance

instance memberFields_flat (i : Info) : Flat s (memberFields i) := by
  cases i with
  | instanceOf c => exact .next (m := layoutOf c) fun _ => inferInstance
  | object id => exact .next (m := objectShape id) fun _ => inferInstance
  | intersection id => exact .next (m := intersectionShape id) fun _ => inferInstance
  | _ => exact .pure _

instance namedFields_flat (i : Info) : Flat s (namedFields i) := by
  cases i <;> (unfold namedFields; infer_instance)

instance recordOf_flat (i : Info) : Flat s (recordOf i) := by
  cases i <;> (unfold recordOf; infer_instance)

instance fieldRef_flat (i : Info) (n : Name) : Flat s (fieldRef i n) := by
  unfold fieldRef
  split
  · infer_instance
  · exact .next fun record => by split <;> infer_instance

instance paramInfos_flat (b : Bindings) (params : List DeclId) (args : List Info) :
    Flat s (paramInfos b params args) := by
  induction params generalizing args with
  | nil => exact .pure _
  | cons d rest ih => exact .next fun _ => .next fun _ => .next fun _ => inferInstance

instance specialize_flat (subject : Subject) (cls : Option DeclId) (args : List Info) :
    Flat s (specialize subject cls args) :=
  .next fun _ => .next fun _ => .next fun _ => .next fun _ => by
    split
    · exact .fail (by simp)
    · infer_instance

instance paramSlot_flat (d : DeclId) : Flat s (paramSlot d) := .next fun _ => inferInstance

instance environmentOf_flat (owner : DeclId) : Flat s (environmentOf owner) :=
  .next fun _ => by
    split
    · infer_instance
    · unfold layOut addEnv
      infer_instance

instance returning_flat (subject : Subject) (b : Bindings) : Flat s (returning subject b) := by
  cases subject with
  | implicitConstructor _ => exact .pure _
  | function d => exact .next fun f => by split <;> infer_instance

instance ownerOf_flat (subject : Subject) : Flat s (ownerOf subject) := by
  cases subject <;> (unfold ownerOf; infer_instance)

instance memberOwnerOf_flat (subject : Subject) (site : Site) :
    Flat s (memberOwnerOf subject site) := by
  cases subject <;> (unfold memberOwnerOf; infer_instance)

instance symbolOf_flat (key : FunctionKey) : Flat s (symbolOf key) :=
  .next fun _ => .next fun _ => by split <;> infer_instance

/-! ### Method tables -/

instance addTable_flat (t : MethodTable) : Flat s (addTable t) := .modify _

instance tableEntry_flat (root : DeclId) (n : Name) (m : DeclId) :
    Flat s (tableEntry root n m) := by
  unfold tableEntry
  infer_instance

instance trampoline_flat (cls : DeclId) (n : Name) (c : CompiledFunction) (closureSlot : Nat) :
    Flat s (trampoline cls n c closureSlot) :=
  .next fun _ => by split <;> infer_instance

instance checkOverride_flat (t : MethodTable) (cls m : DeclId) : Flat s (checkOverride t cls m) :=
  .next fun d => by
    split
    · exact .next fun _ => .next fun _ => .next fun _ => .fail (by simp)
    · infer_instance

end Types

end Compile

/-! ## Parts with a frame -/

namespace Emit

variable {s : Setup} {α β : Type}

/-- Whatever the state and the frame, the step does not nest too deep. -/
class Flat (s : Setup) (m : Emit α) : Prop where
  ended : ∀ f, Compile.Flat s (m f)

namespace Flat

instance pure (a : α) : Flat s (Pure.pure a : Emit α) := ⟨fun f => Compile.Flat.pure (a, f)⟩

instance write (step : Writing α) : Flat s (liftM step : Emit α) := ⟨fun _ => Compile.Flat.pure _⟩

instance lift (c : Compile α) [Compile.Flat s c] : Flat s (liftM c : Emit α) :=
  ⟨fun _ => Compile.Flat.bind⟩

instance get : Flat s (MonadState.get : Emit Frame) := ⟨fun f => Compile.Flat.pure (f, f)⟩

instance modify (g : Frame → Frame) : Flat s (modify g : Emit PUnit) :=
    ⟨fun _ => Compile.Flat.pure _⟩

instance getWork : Flat s (getThe Work : Emit Work) := lift MonadState.get

instance bind {m : Emit α} {k : α → Emit β} [first : Flat s m] [rest : ∀ a, Flat s (k a)] :
    Flat s (m >>= k) :=
  ⟨fun f => @Compile.Flat.bind s _ _ (m f) (fun result => k result.1 result.2) (first.ended f)
    fun result => (rest result.1).ended result.2⟩

theorem after {m : Emit α} {k : α → Emit β} (_ : Flat s m) (_ : ∀ a, Flat s (k a)) :
    Flat s (m >>= k) := bind

/-- What follows is flat, whatever it goes on with. -/
theorem next {m : Emit α} {k : α → Emit β} [Flat s m] (rest : ∀ a, Flat s (k a)) :
    Flat s (m >>= k) := bind

instance mapM {k : α → Emit β} [∀ a, Flat s (k a)] (as : List α) : Flat s (as.mapM k) := by
  induction as with
  | nil => exact pure []
  | cons a as ih =>
    rw [List.mapM_cons]
    infer_instance

instance forM {k : α → Emit PUnit} [∀ a, Flat s (k a)] (as : List α) : Flat s (as.forM k) := by
  induction as with
  | nil => exact pure _
  | cons a as ih => exact bind

instance filterMapM {k : α → Emit (Option β)} [∀ a, Flat s (k a)] (as : List α) :
    Flat s (as.filterMapM k) := by
  induction as with
  | nil => exact pure _
  | cons a as ih =>
    rw [List.filterMapM_cons]
    refine next fun found => ?_
    split <;> infer_instance

instance optionMapM {k : α → Emit β} [∀ a, Flat s (k a)] (o : Option α) : Flat s (o.mapM k) := by
  cases o with
  | none => exact pure none
  | some a => exact bind (k := fun b => Pure.pure (some b))

instance elim {m : Emit β} {k : α → Emit β} [Flat s m] [∀ a, Flat s (k a)] (o : Option α) :
    Flat s (o.elim m k) := by
  cases o <;> (unfold Option.elim; infer_instance)

instance ite {c : Prop} [Decidable c] {m n : Emit α} [Flat s m] [Flat s n] :
    Flat s (if c then m else n) := by
  split <;> infer_instance

theorem fail {cause : Cause} (h : cause ≠ .tooDeep) :
    Flat s (liftM (Compile.fail cause : Compile α) : Emit α) :=
  have := Compile.Flat.fail (s := s) (α := α) h
  inferInstance

end Flat

/-! ### Forms and names -/

instance isClosed_flat : Flat s isClosed := .next fun _ => inferInstance

instance lookup_flat (n : Name) : Flat s (lookup n) := .next fun _ => inferInstance

instance boxed_flat (v : Operand) : Flat s (boxed v) := by unfold boxed; split <;> infer_instance

instance toBoxed_flat (v : Operand) : Flat s (toBoxed v) := .next fun _ => inferInstance

instance raw_flat (v : Operand) : Flat s (raw v) := by unfold raw; split <;> infer_instance

instance nullValue_flat (info : Info) : Flat s (nullValue info) := .next fun _ => inferInstance

instance newCell_flat (value : ValueId) (name : String) : Flat s (newCell value name) :=
  .next fun _ => inferInstance

instance loadField_flat (record : TyId) (ptr : ValueId) (index : Nat) (name : String) :
    Flat s (loadField record ptr index name) := .next fun _ => inferInstance

instance storeField_flat (record : TyId) (ptr : ValueId) (index : Nat) (value : ValueId) :
    Flat s (storeField record ptr index value) := .next fun _ => inferInstance

instance callPtr_flat (func : FuncId) (args : List ValueId) (name : String) :
    Flat s (callPtr func args name) := .next fun _ => by split <;> infer_instance

instance atTop_flat : Flat s atTop := .next fun _ => inferInstance

instance bindName_flat (n : Name) (b : Binding) : Flat s (bindName n b) :=
  .next fun _ => .next fun _ => by
    split
    · exact .lift _
    · infer_instance

instance recordSites_flat (decls : List DeclId) : Flat s (recordSites decls) := by
  unfold recordSites currentSite Compile.recordSite
  infer_instance

instance openBlock_flat (decls : List DeclId) : Flat s (openBlock decls) := by
  unfold openBlock
  infer_instance

instance closeBlock_flat : Flat s closeBlock := .modify _

instance refreshSites_flat : Flat s refreshSites := .next fun _ => inferInstance

instance receiver_flat : Flat s receiver :=
  .next fun _ => by
    split
    · infer_instance
    · exact .fail (by simp)

/-! ### Values in another form -/

instance index_flat (i : Nat) : Flat s (index i) := .write _

instance elemAddr_flat (array : ValueId) (i : Nat) (name : String) :
    Flat s (elemAddr array i name) :=
  .next fun _ => inferInstance

instance unionWith_flat (u : UnionShape) (shape : ShapeId) (moves : List (Nat × ValueId)) :
    Flat s (unionWith u shape moves) := by
  unfold unionWith
  infer_instance

instance presentUnion_flat (record : TyId) (value : ValueId) :
    Flat s (presentUnion record value) := by
  unfold presentUnion
  infer_instance

instance unionFromAny_flat (v : Operand) (u : UnionShape) (shape : ShapeId) :
    Flat s (unionFromAny v u shape) := by
  refine .next fun p => ?_
  dsimp only
  split
  · infer_instance
  · iterate 5 refine .next fun _ => ?_
    split
    · iterate 5 refine .next fun _ => ?_
      infer_instance
    · iterate 4 refine .next fun _ => ?_
      infer_instance

instance takeFilled_flat (u : UnionShape) (ptr null out : ValueId) (done : BlockId)
    (slots : List (UnionSlot × Nat)) : Flat s (takeFilled u ptr null out done slots) := by
  induction slots with
  | nil => exact .pure _
  | cons slot rest ih =>
    unfold takeFilled
    infer_instance

instance unionToAny_flat (v : Operand) (shape : ShapeId) : Flat s (unionToAny v shape) := by
  refine .next fun u => .next fun ptr => ?_
  dsimp only
  split
  · infer_instance
  · iterate 7 refine .next fun _ => ?_
    split
    · iterate 5 refine .next fun _ => ?_
      infer_instance
    · infer_instance

instance initFromUnion_flat (v : Operand) (u : UnionShape) (target source : ShapeId) :
    Flat s (initFromUnion v u target source) := by
  refine .next fun src => .next fun ptr => .after (@Flat.filterMapM _ _ _ _ (fun _ => ?_) _)
    fun _ => inferInstance
  dsimp only
  split <;> infer_instance

instance initFromInstance_flat (v : Operand) (u : UnionShape) (target : ShapeId) :
    Flat s (initFromInstance v u target) := by
  unfold initFromInstance
  split
  · exact .next fun _ => by split <;> infer_instance
  · infer_instance

instance widensTo_flat (a b : Info) : Compile.Flat s (widensTo a b) := by
  unfold widensTo
  split <;> infer_instance

instance unknownMember_flat (u : UnionShape) (target : Info) :
    Flat s (unknownMember u target : Emit α) :=
  .next fun _ => .fail (by simp)

instance isPresent_flat (v : Operand) (shape : ShapeId) : Flat s (isPresent v shape) := by
  unfold isPresent
  infer_instance

instance optionalShape?_flat (i : Info) : Compile.Flat s (optionalShape? i) := by
  cases i <;> (unfold optionalShape?; infer_instance)

instance isAbsent_flat (v : Operand) : Flat s (isAbsent v) :=
  .next fun _ => by split <;> infer_instance

instance coerceInstance_flat (v : Operand) (cls target : DeclId) :
    Flat s (coerceInstance v cls target) := by
  unfold coerceInstance
  infer_instance

instance loadRef_flat (ptr : ValueId) (field : FieldRef) (n : Name) :
    Flat s (loadRef ptr field n) :=
  .next fun _ => inferInstance

section Types

variable [s.TypesEnd]

instance infoOf_flat (t : TypeId) : Flat s (infoOf t) := .next fun _ => inferInstance

instance closedInfoOf_flat (t : TypeId) : Flat s (closedInfoOf t) := .next fun _ => inferInstance

instance fieldValues_flat (v : Operand) : Flat s (fieldValues v) :=
  .next fun _ => .next fun _ => by
    split
    · refine .next fun ptr => .after (@Flat.mapM _ _ _ _ (fun _ => ?_) _)
        fun _ => inferInstance
      dsimp only
      infer_instance
    · infer_instance

instance memberRecord_flat (shape : IntersectionShape) (source target : Info) :
    Flat s (memberRecord shape source target) := by
  unfold memberRecord
  split <;> infer_instance

/-! ### Closures -/

instance sigInfos_flat (sig : TypeId) : Flat s (sigInfos sig) :=
  .next fun _ => by split <;> infer_instance

instance callShape_flat (known : ClosureInfo) (arity : Nat) : Flat s (callShape known arity) :=
  .next fun _ => by split <;> infer_instance

end Types

instance outerSource?_flat (e : Environment) (slot : EnvSlot) (i : Nat) :
    Flat s (outerSource? e slot i) := .next fun _ => by split <;> infer_instance

instance slotMeaning_flat (slot : EnvSlot) (n : Name) : Flat s (slotMeaning slot n) := by
  unfold slotMeaning
  split <;> infer_instance

instance fillByScope_flat (e : Environment) (ptr : ValueId) (slot : EnvSlot) (i : Nat) (n : Name) :
    Flat s (fillByScope e ptr slot i n) :=
  .next fun _ => by
    split
    · infer_instance
    · infer_instance
    · split
      · exact .next fun _ => .fail (by simp)
      · infer_instance

instance fillCapture_flat (e : Environment) (ptr : ValueId) (slot : EnvSlot) (i : Nat) :
    Flat s (fillCapture e ptr slot i) := by
  unfold fillCapture
  split
  · infer_instance
  · infer_instance
  · infer_instance
  · exact .next fun _ => by split <;> infer_instance

instance fillCaptures_flat (e : Environment) (ptr : ValueId) : Flat s (fillCaptures e ptr) := by
  unfold fillCaptures
  infer_instance

instance fillReceiver_flat (e : Environment) (ptr : ValueId) (given : Option ValueId) :
    Flat s (fillReceiver e ptr given) := by
  unfold fillReceiver
  split
  · infer_instance
  · dsimp only
    split <;> infer_instance

instance makeClosure_flat (c : CompiledFunction) (d : DeclId) (env : ValueId)
    (sig : Option TypeId) :
    Flat s (makeClosure c d env sig) := by
  unfold makeClosure
  infer_instance

instance captureEnv_flat (env : EnvId) (given : Option ValueId) :
    Flat s (captureEnv env given) := by
  unfold captureEnv
  infer_instance

instance closureOf_flat (c : CompiledFunction) (d : DeclId) (given : Option ValueId) :
    Flat s (closureOf c d given) := .next fun _ => inferInstance

instance closureFromLazy_flat (f : Operand) (d : DeclId) (c : CompiledFunction)
    (sig : Option TypeId) :
    Flat s (closureFromLazy f d c sig) := by
  unfold closureFromLazy
  infer_instance

instance makeLazy_flat [s.TypesEnd] (d : DeclId) : Flat s (makeLazy d) := by
  unfold makeLazy
  infer_instance

/-! ### Calls and instances -/

instance receiverValue_flat (d : DeclId) (on : Option Receiver) : Flat s (receiverValue d on) := by
  cases on with
  | some r => exact .next fun _ => inferInstance
  | none => exact .next fun _ => inferInstance

instance constructorSubject_flat (cls : DeclId) : Compile.Flat s (constructorSubject cls) :=
  .next fun _ => by split <;> infer_instance

instance externalConstructor?_flat (subject : Subject) (cls : DeclId) (args : List Operand) :
    Compile.Flat s (externalConstructor? subject cls args) := by
  cases subject <;> (unfold externalConstructor?; infer_instance)

instance forwardedArgument_flat (cls param : DeclId) : Flat s (forwardedArgument cls param) :=
  .next fun _ => .next fun _ => by split <;> infer_instance

instance copyTable_flat (table copy : ValueId) (length : Nat) :
    Flat s (copyTable table copy length) := by
  unfold copyTable
  infer_instance

instance callSlot_flat [s.TypesEnd] (cls : DeclId) (this : ValueId) (slot : Nat)
    (values : List ValueId) :
    Flat s (callSlot cls this slot values) := by
  refine .next fun _ => .next fun _ => .next fun _ => .next fun _ => .next fun _ =>
    .next fun _ => ?_
  split <;> infer_instance

instance externalInfo_flat [s.TypesEnd] (f : FunctionDecl) (ty : TypeId) :
    Flat s (externalInfo f ty) := by
  unfold externalInfo
  infer_instance

/-! ### Properties and variables -/

instance noProperty_flat (info : Info) (n : Name) : Flat s (noProperty info n : Emit α) := by
  unfold noProperty
  infer_instance

instance findMember_flat (chain : List DeclId) (n : Name) (kind : FunctionKind) :
    Compile.Flat s (findMember chain n kind) := by
  unfold findMember
  infer_instance

instance readField_flat [s.TypesEnd] (object : Operand) (n : Name) : Flat s (readField object n) :=
  .next fun _ => by split <;> infer_instance

instance setter?_flat (info : Info) (n : Name) : Compile.Flat s (setter? info n) := by
  unfold setter?
  split <;> infer_instance

instance memberOwner_flat : Flat s memberOwner := .next fun _ => by split <;> infer_instance

instance findStatic_flat (n : Name) (chain : List DeclId) :
    Compile.Flat s (findStatic n chain) := by
  induction chain with
  | nil => exact .pure _
  | cons c rest ih => exact .next fun _ => by split <;> infer_instance

instance findStaticMethod_flat (n : Name) (chain : List DeclId) :
    Compile.Flat s (findStaticMethod n chain) := by
  unfold findStaticMethod
  infer_instance

instance staticVariable_flat [s.TypesEnd] (prop : DeclId) : Flat s (staticVariable prop) := by
  unfold staticVariable
  infer_instance

instance variablePlace_flat (n : Name) : Flat s (variablePlace n) :=
  .next fun _ => by split <;> infer_instance

instance checkRebinding_flat (n : Name) (current new : Info) :
    Flat s (checkRebinding n current new) := by
  unfold checkRebinding
  split <;> infer_instance

instance className?_flat (e : ExprId) : Flat s (className? e) :=
  .next fun _ => by
    split
    · exact .next fun _ => by split <;> infer_instance
    · infer_instance

/-! ### Operators -/

instance truthy_flat (v : Operand) : Flat s (truthy v) := by
  unfold truthy
  split
  · infer_instance
  · infer_instance
  · infer_instance
  · exact .next fun _ => by split <;> infer_instance

instance meetsNull_flat (v other : Operand) : Flat s (meetsNull v other) := by
  unfold meetsNull
  infer_instance

instance comparedWithNull?_flat (a b : Operand) : Flat s (comparedWithNull? a b) := by
  unfold comparedWithNull?
  infer_instance

instance equal_flat (a b : Operand) : Flat s (equal a b) :=
  .next fun _ => by split <;> infer_instance

instance numeric_flat (op : Source.BinaryOp) (a b : Operand) : Flat s (numeric op a b) := by
  unfold numeric
  split <;> infer_instance

instance unsupportedBinary_flat (op : Source.BinaryOp) (a b : Operand) :
    Flat s (unsupportedBinary op a b : Emit α) := by
  unfold unsupportedBinary
  infer_instance

instance strictBinary_flat (op : Source.BinaryOp) (a b : Operand) :
    Flat s (strictBinary op a b) := by
  unfold strictBinary
  split
  · infer_instance
  · infer_instance
  · infer_instance
  · exact .next fun _ => by split <;> infer_instance
  · infer_instance

instance negate_flat (v : Operand) : Flat s (negate v) := by
  unfold negate
  infer_instance

/-! ### Statements and bodies -/

instance newVariable_flat (decl : DeclId) (n : Name) (info : Info) (value : ValueId) :
    Flat s (newVariable decl n info value) := by
  unfold newVariable
  infer_instance

instance brUnlessClosed_flat (target : BlockId) : Flat s (brUnlessClosed target) := by
  unfold brUnlessClosed
  infer_instance

instance hoist_flat (body : List StmtId) : Flat s (hoist body) :=
  @Flat.filterMapM _ _ _ _ (fun _ => .next fun _ => by split <;> infer_instance) body

instance bindSlot_flat (e : Environment) (params : List Info) (site : Site)
    (slot : EnvSlot) (i : Nat) :
    Flat s (bindSlot e params site slot i) := by
  unfold bindSlot bindCell
  dsimp only
  split
  · infer_instance
  · exact .next fun _ => .next fun _ => by split <;> infer_instance

instance prologue_flat (env : EnvId) (params : List Info) (site : Site) :
    Flat s (prologue env params site) := by
  unfold prologue
  infer_instance

end Emit

end ShapeCompiler
