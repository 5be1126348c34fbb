import ShapeCompiler.Proofs.Parts
import ShapeCompiler.Proofs.Searches

/-!
# Types nest only so deep

An interface is lowered to nothing inside itself. A class has no such guard: it is laid out wherever
it is a member of an intersection, and if that is in its own layout there is no end.

* `Program.Inside`, `Program.LayoutsApart`: the types that are lowered for the layout of a class,
  and that no class is laid out for its own layout;
* `Compile.FailsOnly`: a step fails only for some causes, and the same interfaces are in progress
  after it;
* `Compile.infoAt_shallow`: a type is lowered within a depth that the interfaces and classes that
  are left allow;
* `Compile.infoOf_shallow`, `Compile.layoutOf_shallow`: the depth that the compiler allows is
  enough.
-/

namespace ShapeCompiler

open Source Code

namespace Source

/-! ## Types that are lowered for the layout of a class -/

/-- The types that a type is put together from. -/
def TypeExpr.parts : TypeExpr → List TypeId
  | .object fields => fields.map (·.2)
  | .union members | .intersection members => members
  | _ => []

namespace Program

/-- Every type is put together from types that were there before. -/
def TypesFounded (p : Program) : Prop := ∀ t, ∀ part ∈ (p.types.get t).parts, part.raw < t.raw

/-- Values of the type may be known as instances of the class. -/
inductive Holds (p : Program) (c : DeclId) : TypeId → Prop where
  | instance {t : TypeId} (isInstance : p.types.get t = .instanceOf c) : Holds p c t
  | union {t m : TypeId} {members : List TypeId} (isUnion : p.types.get t = .union members)
      (isMember : m ∈ members) (holds : Holds p c m) : Holds p c t

/-- The types of a class's properties that are lowered for its layout. -/
def propertyTypes (p : Program) (c : DeclId) : List TypeId :=
  (p.instanceProperties c).toOption.elim [] fun ds =>
    (ds.filterMap fun d => (p.property d).toOption.map (·.ty)).filter fun t =>
      !p.types.mentionsParam t

/-- The type is lowered when the class is laid out: it is that of a property, a part of another one,
or what an interface or a class that is laid out inside has for a property. -/
inductive Inside (p : Program) (c : DeclId) : TypeId → Prop where
  | property {t : TypeId} (isProperty : t ∈ p.propertyTypes c) : Inside p c t
  | part {t part : TypeId} (inside : Inside p c t) (isPart : part ∈ (p.types.get t).parts) :
      Inside p c part
  | field {t : TypeId} {d : DeclId} {fields : List (Name × TypeId)} {f : Name × TypeId}
      (inside : Inside p c t) (isInterface : p.types.get t = .interface d)
      (known : p.interfaceFields d = .ok fields) (isField : f ∈ fields) : Inside p c f.2
  | layout {t m t' : TypeId} {members : List TypeId} {c' : DeclId} (inside : Inside p c t)
      (isIntersection : p.types.get t = .intersection members) (isMember : m ∈ members)
      (holds : p.Holds c' m) (isProperty : t' ∈ p.propertyTypes c') : Inside p c t'

/-- The one class is laid out for the layout of the other. -/
def LaysOut (p : Program) (c c' : DeclId) : Prop :=
  ∃ t members m, p.Inside c t ∧ p.types.get t = .intersection members ∧ m ∈ members ∧ p.Holds c' m

/-- No class is laid out for its own layout. -/
def LayoutsApart (p : Program) : Prop := ∀ c, ¬ p.LaysOut c c

/-- A type that is not there has no parts. -/
theorem raw_lt_of_mem_parts {p : Program} {t part : TypeId}
    (isPart : part ∈ (p.types.get t).parts) :
    t.raw < p.types.size := by
  by_contra outside
  have isAny : p.types.get t = .any := by
    simp only [TypeStore.get, TypeStore.size] at outside ⊢
    simp [Array.getD, outside]
  rw [isAny] at isPart
  cases isPart

instance (p : Program) : Decidable p.TypesFounded :=
  decidable_of_iff (∀ i < p.types.size, ∀ part ∈ (p.types.get ⟨i⟩).parts, part.raw < i)
    ⟨fun each t part isPart => each t.raw (raw_lt_of_mem_parts isPart) part isPart,
      fun founded i _ => founded ⟨i⟩⟩

theorem raw_lt_of_classChain {p : Program} {c : DeclId} {chain : List DeclId}
    (known : p.classChain c = .ok chain) : c.raw < p.decls.size := by
  by_contra outside
  have dangling : p.classChain c = .error (.dangling c) := by
    simp [classChain, classDecl, decl, outside, Bind.bind, Except.bind]
  cases known.symm.trans dangling

theorem raw_lt_of_interfaceFields {p : Program} {d : DeclId} {fields : List (Name × TypeId)}
    (known : p.interfaceFields d = .ok fields) : d.raw < p.decls.size := by
  by_contra outside
  have dangling : p.interfaceFields d = .error (.dangling d) := by
    simp [interfaceFields, interface, decl, outside, Bind.bind, Except.bind]
  cases known.symm.trans dangling

end Program

end Source

namespace Compile

/-! ## Steps that fail for few reasons -/

variable {P : Cause → Prop} {s : Setup} {busy : List DeclId} {α β : Type} {Q : α → Prop}

/-- While these interfaces are in progress, the step fails only where the program is invalid or for
a cause of this kind. If it succeeds, they are in progress afterwards, and what it gives has the
property. -/
def FailsOnly (P : Cause → Prop) (s : Setup) (busy : List DeclId) (m : Compile α) (Q : α → Prop) :
    Prop :=
  ∀ w, w.interfacesInProgress = busy →
    match m s w with
    | .ok a w' => w'.interfacesInProgress = busy ∧ Q a
    | .error e _ => (∃ what, e.cause = .invalid what) ∨ P e.cause

namespace FailsOnly

variable {m : Compile α}

theorem pure {a : α} (h : Q a) : FailsOnly P s busy (Pure.pure a) Q := fun _ here => ⟨here, h⟩

theorem ended {w : Work} (h : FailsOnly P s w.interfacesInProgress m Q) {e : Failure} {w' : Work}
    (ran : m s w = .error e w') (invalid : ∀ what, P (.invalid what)) : P e.cause := by
  have ends := h w rfl
  rw [ran] at ends
  obtain ⟨what, isInvalid⟩ | allowed := ends
  · exact isInvalid ▸ invalid what
  · exact allowed

theorem fail {cause : Cause} (h : (∃ what, cause = .invalid what) ∨ P cause) :
    FailsOnly P s busy (fail cause : Compile α) Q :=
  fun _ _ => h

theorem mono {R : α → Prop} (h : FailsOnly P s busy m Q) (weaker : ∀ a, Q a → R a) :
    FailsOnly P s busy m R := by
  intro w here
  have h := h w here
  cases ran : m s w with
  | ok a w' =>
    rw [ran] at h
    exact ⟨h.1, weaker a h.2⟩
  | error e w' =>
    rw [ran] at h
    exact h

theorem bind {f : α → Compile β} {R : β → Prop} (first : FailsOnly P s busy m Q)
    (rest : ∀ a, Q a → FailsOnly P s busy (f a) R) : FailsOnly P s busy (m >>= f) R := by
  intro w here
  have first := first w here
  rw [bind_apply]
  cases ran : m s w with
  | ok a w' =>
    rw [ran] at first
    exact rest a first.2 w' first.1
  | error e w' =>
    rw [ran] at first
    exact first

/-- A step that only looks at the state, or changes something other than what is in progress. -/
theorem modifyGet {f : Work → α × Work}
    (same : ∀ w, (f w).2.interfacesInProgress = w.interfacesInProgress) :
    FailsOnly P s busy (MonadState.modifyGet f : Compile α) fun _ => True :=
  fun w here => ⟨(same w).trans here, trivial⟩

theorem get_bind {f : Work → Compile α} (h : ∀ w, FailsOnly P s busy (f w) Q) :
    FailsOnly P s busy (MonadState.get >>= f) Q := fun w here => h w w here

theorem program_bind {f : Program → Compile α} (h : FailsOnly P s busy (f s.program) Q) :
    FailsOnly P s busy (program >>= f) Q := h

theorem asks_bind {question : Program → Except ProgramError α} {f : α → Compile β} {R : β → Prop}
    (h : ∀ a, question s.program = .ok a → FailsOnly P s busy (f a) R) :
    FailsOnly P s busy (asks question >>= f) R := by
  intro w here
  rw [bind_apply, asks_apply]
  cases answer : question s.program with
  | ok a => exact h a answer w here
  | error e => exact .inl ⟨_, rfl⟩

/-- All that a list of steps gives is given by one of them. -/
theorem mapM {f : α → Compile β} {R : α → β → Prop} {as : List α}
    (each : ∀ a ∈ as, FailsOnly P s busy (f a) (R a)) :
    FailsOnly P s busy (as.mapM f) fun bs => ∀ b ∈ bs, ∃ a ∈ as, R a b := by
  induction as with
  | nil => exact pure (by simp)
  | cons a as ih =>
    rw [List.mapM_cons]
    refine (each a List.mem_cons_self).bind fun b made => ?_
    refine (ih fun a' inside => each a' (List.mem_cons_of_mem _ inside)).bind fun bs rest => ?_
    refine pure fun b' inside => ?_
    rcases List.mem_cons.mp inside with rfl | inside
    · exact ⟨a, List.mem_cons_self, made⟩
    · obtain ⟨a', isOther, made⟩ := rest b' inside
      exact ⟨a', List.mem_cons_of_mem _ isOther, made⟩

/-! ## Shapes -/

theorem pointerRecord (name : String) (fields : List TyId) :
    FailsOnly P s busy (pointerRecord name fields) fun _ => True := modifyGet fun _ => rfl

theorem registerShape (shape : Shape) : FailsOnly P s busy (registerShape shape) fun _ => True :=
  modifyGet fun _ => rfl

theorem shapeOfObject (props : List (Name × Info)) :
    FailsOnly P s busy (shapeOfObject props) fun _ => True := by
  refine get_bind fun w => program_bind ?_
  dsimp only
  split
  · exact pure trivial
  · exact (pointerRecord _ _).bind fun _ _ => registerShape _

theorem shapeOfUnion (members : List Info) (nullable : Bool) :
    FailsOnly P s busy (shapeOfUnion members nullable) fun _ => True := by
  refine get_bind fun w => program_bind ?_
  dsimp only
  split
  · exact pure trivial
  · exact (pointerRecord _ _).bind fun _ _ => registerShape _

theorem shapeOfIntersection (segments : List Segment) (fields : List (Name × Info)) :
    FailsOnly P s busy (shapeOfIntersection segments fields) fun _ => True := by
  refine get_bind fun w => ?_
  split
  · exact pure trivial
  · exact (pointerRecord _ _).bind fun _ _ => registerShape _

theorem objectShape (id : ShapeId) : FailsOnly P s busy (objectShape id) fun _ => True := by
  refine get_bind fun w => ?_
  split
  · exact pure trivial
  · exact fail (by simp)

theorem intersectionShape (id : ShapeId) : FailsOnly P s busy (intersectionShape id)
    fun _ => True := by
  refine get_bind fun w => ?_
  split
  · exact pure trivial
  · exact fail (by simp)

theorem freshRecord (base : String) (size : Nat) :
    FailsOnly P s busy (freshRecord base size) fun _ => True :=
  (get_bind fun _ => pure trivial : FailsOnly P s busy (uniqueRecordName base) fun _ => True).bind
    fun _ _ => (pointerRecord _ _).bind fun _ _ => pure trivial

/-! ## Types -/

section Infos

variable {part : PartInfo} {b : Bindings}

theorem objectInfoBy {fields : List (Name × TypeId)}
    (each : ∀ f ∈ fields, FailsOnly P s busy (part b f.2) fun _ => True) :
    FailsOnly P s busy (objectInfoBy part b fields) fun i => ∀ c, i ≠ .instanceOf c := by
  refine (mapM (R := fun _ _ => True) fun f inside => (each f inside).bind fun _ _ =>
    pure trivial).bind
    fun props _ => (shapeOfObject props).bind fun _ _ => pure ?_
  simp

/-- Inside an interface that is in progress nothing is known of it, so only another one is
lowered. -/
theorem interfaceInfoBy {d : DeclId} (each : d ∉ busy → ∀ fields,
      s.program.interfaceFields d = .ok fields → ∀ f ∈ fields,
        FailsOnly P s (d :: busy) (part b f.2) fun _ => True) :
    FailsOnly P s busy (interfaceInfoBy part b d) fun i => ∀ c, i ≠ .instanceOf c := by
  intro w here
  by_cases inside : d ∈ w.interfacesInProgress
  · have answer : Compile.interfaceInfoBy part b d s w = .ok .any w := by
      change (if d ∈ w.interfacesInProgress then _ else _ : Compile Info) s w = _
      rw [if_pos inside]
      rfl
    rw [answer]
    exact ⟨here, by simp⟩
  · have properties : FailsOnly P s (d :: busy)
        (asks (·.interfaceFields d) >>= Compile.objectInfoBy part b) fun i =>
            ∀ c, i ≠ .instanceOf c :=
      asks_bind fun fields known => objectInfoBy (each (here ▸ inside) fields known)
    have ends := properties { w with interfacesInProgress :=
      d :: w.interfacesInProgress } (by rw [here])
    rw [interfaceInfoBy_apply b inside]
    cases ran : (asks (·.interfaceFields d) >>= Compile.objectInfoBy part b : Compile Info) s
        { w with interfacesInProgress := d :: w.interfacesInProgress } with
    | ok i w' =>
      rw [ran] at ends
      refine ⟨?_, ends.2⟩
      have others : busy.filter (· ≠ d) = busy := List.filter_eq_self.mpr fun d' other =>
        decide_eq_true fun same => inside (here ▸ same ▸ other)
      simpa [ends.1] using others
    | error e w' =>
      rw [ran] at ends
      exact ends

theorem mem_of_mem_splitNull {i : Info} {infos : List Info} (h : i ∈ (splitNull infos).1) :
    i ∈ infos := by
  induction infos with
  | nil => exact h
  | cons first rest ih =>
    simp only [splitNull] at h
    split at h
    · exact List.mem_cons_of_mem _ (ih h)
    · rcases List.mem_cons.mp h with rfl | h
      · exact List.mem_cons_self
      · exact List.mem_cons_of_mem _ (ih (List.mem_filter.mp h).1)

theorem unionInfoBy {members : List TypeId} {R : TypeId → Info → Prop}
    (each : ∀ m ∈ members, FailsOnly P s busy (part b m) (R m)) :
    FailsOnly P s busy (unionInfoBy part b members)
      fun i => ∀ c, i = .instanceOf c → ∃ m ∈ members, R m i := by
  have lowered : FailsOnly P s busy
      (members.mapM fun t => if t.isNullish then Pure.pure Info.null else part b t)
      fun infos => ∀ i ∈ infos, ∃ m ∈ members, i = .null ∨ R m i := by
    refine mapM fun m inside => ?_
    split
    · exact pure (.inl rfl)
    · exact (each m inside).mono fun i made => .inr made
  refine lowered.bind fun infos made => ?_
  split
  · exact pure (by simp)
  · rename_i only alone
    refine pure fun c isInstance => ?_
    have inside : only ∈ infos := mem_of_mem_splitNull (by simp [alone])
    obtain ⟨m, isMember, isNull | holds⟩ := made only inside
    · rw [isNull] at isInstance
      cases isInstance
    · exact ⟨m, isMember, holds⟩
  · exact (shapeOfUnion _ _).bind fun _ _ => pure (by simp)

theorem hasTable (chain : List DeclId) : FailsOnly P s busy (hasTable chain) fun _ => True :=
  (mapM (R := fun _ _ => True) fun _ _ => asks_bind fun _ _ => pure trivial).bind
    fun _ _ => pure trivial

theorem propertyInfoBy {d : DeclId} (each : ∀ q, s.program.property d = .ok q →
      s.program.types.mentionsParam q.ty = false → FailsOnly P s busy (part .root q.ty)
      fun _ => True) :
    FailsOnly P s busy (propertyInfoBy part d) fun _ => True := by
  refine asks_bind fun q known => program_bind ?_
  split
  · exact pure trivial
  · rename_i plain
    exact each q known (by simpa using plain)

theorem layoutBy {c : DeclId} (each : c.raw < s.program.decls.size →
    ∀ t ∈ s.program.propertyTypes c,
      FailsOnly P s busy (part .root t) fun _ => True) :
    FailsOnly P s busy (layoutBy part c) fun _ => True := by
  refine get_bind fun w => ?_
  split
  · exact pure trivial
  · refine asks_bind fun chain isChain => (hasTable chain).bind fun _ _ =>
      asks_bind fun ds areProps => ?_
    refine (mapM (R := fun _ _ => True) fun d isProp => ?_).bind fun props _ => ?_
    · refine (propertyInfoBy fun q known plain => ?_).bind fun _ _ =>
        asks_bind fun _ _ => pure trivial
      refine each (Program.raw_lt_of_classChain isChain) q.ty ?_
      rw [Program.propertyTypes, areProps]
      refine List.mem_filter.mpr ⟨List.mem_filterMap.mpr ⟨d, isProp, ?_⟩, by simp [plain]⟩
      simp [known, Except.toOption]
    · have name : FailsOnly P s busy (declName c) fun _ => True := program_bind (pure trivial)
      exact name.bind fun _ _ => (freshRecord _ _).bind fun _ _ =>
        (modifyGet fun _ => rfl).bind fun _ _ => pure trivial

theorem memberFieldsBy {i : Info}
    (layout : ∀ c, i = .instanceOf c → FailsOnly P s busy (Compile.layoutBy part c) fun _ => True) :
    FailsOnly P s busy (memberFieldsBy part i) fun _ => True := by
  cases i with
  | object shape => exact (objectShape _).bind fun _ _ => pure trivial
  | intersection shape => exact (intersectionShape _).bind fun _ _ => pure trivial
  | instanceOf c => exact (layout c rfl).bind fun _ _ => pure trivial
  | _ => exact pure trivial

theorem segmentsBy {start : Nat} {members : List TypeId} {R : TypeId → Info → Prop}
    (each : ∀ m ∈ members, FailsOnly P s busy (part b m) (R m))
    (layouts : ∀ m ∈ members, ∀ c, R m (.instanceOf c) →
      FailsOnly P s busy (Compile.layoutBy part c) fun _ => True) :
    FailsOnly P s busy (segmentsBy part b start members) fun _ => True := by
  induction members generalizing start with
  | nil => exact pure trivial
  | cons m rest ih =>
    refine (each m List.mem_cons_self).bind fun i made => ?_
    have fields : FailsOnly P s busy (Compile.memberFieldsBy part i) fun _ => True :=
      memberFieldsBy fun c isInstance => layouts m List.mem_cons_self c (isInstance ▸ made)
    refine fields.bind fun own _ => program_bind ?_
    refine (ih (fun m' inside => each m' (List.mem_cons_of_mem _ inside)) fun m' inside =>
      layouts m' (List.mem_cons_of_mem _ inside)).bind fun _ _ => pure trivial

end Infos

end FailsOnly

/-! ## All types -/

/-- A depth in which a type is lowered, if so many interfaces and classes are left to be entered: in
between, each part of a type comes before it. -/
def depthFor (p : Program) (left : Nat) (t : TypeId) : Nat :=
  left * (p.types.size + 1) + min t.raw p.types.size + 1

theorem depthFor_le (p : Program) (left : Nat) (t : TypeId) :
    depthFor p left t ≤ (left + 1) * (p.types.size + 1) := by
  rw [depthFor, Nat.succ_mul]
  have := Nat.min_le_right t.raw p.types.size
  omega

theorem depthFor_lt {p : Program} {left fewer : Nat} (lt : fewer < left) (t t' : TypeId) :
    depthFor p fewer t' < depthFor p left t := by
  have le := Nat.mul_le_mul_right (p.types.size + 1) lt
  have fits := depthFor_le p fewer t'
  have positive : left * (p.types.size + 1) < depthFor p left t := by
    rw [depthFor]
    omega
  exact Nat.lt_of_le_of_lt (Nat.le_trans fits le) positive

theorem depthFor_part {p : Program} (founded : p.TypesFounded) {left : Nat} {t part : TypeId}
    (isPart : part ∈ (p.types.get t).parts) : depthFor p left part < depthFor p left t := by
  have before := founded t part isPart
  have known := Program.raw_lt_of_mem_parts isPart
  simp only [depthFor]
  omega

/-- The classes that are being laid out lead to the type. Inside a class nothing is bound. -/
def Amid (p : Program) (b : Bindings) (classes : List DeclId) (t : TypeId) : Prop :=
  classes = [] ∨ b = .root ∧ ∀ c ∈ classes, p.Inside c t

theorem Amid.onward {p : Program} {b : Bindings} {classes : List DeclId} {t t' : TypeId}
    (h : Amid p b classes t) (leads : ∀ c, p.Inside c t → p.Inside c t') : Amid p b classes t' :=
  h.imp_right fun ⟨isRoot, inside⟩ => ⟨isRoot, fun c laidOut => leads c (inside c laidOut)⟩

/-- By induction on the depth. On the way to a part the type comes earlier, on the way into an
interface one more is in progress, and on the way into a class one more is being laid out: it is
another one, since no class is laid out for its own layout. -/
theorem infoAt_shallow (founded : s.program.TypesFounded) (apart : s.program.LayoutsApart)
    {depth : Nat} {b : Bindings} {classes : List DeclId} {t : TypeId}
    (amid : Amid s.program b classes t)
    (enough : depthFor s.program (s.program.left busy + s.program.left classes) t ≤ depth) :
    FailsOnly (· ≠ .tooDeep) s busy (infoAt depth b t)
      fun i => b = .root → ∀ c, i = .instanceOf c → s.program.Holds c t := by
  induction depth generalizing b classes t busy with
  | zero => simp [depthFor] at enough
  | succ depth ih =>
    have onward (busy' classes' : List DeclId) {b' : Bindings} {t' : TypeId}
        (lt : depthFor s.program (s.program.left busy' + s.program.left classes') t' <
          depthFor s.program (s.program.left busy + s.program.left classes) t)
        (amid' : Amid s.program b' classes' t') :
        FailsOnly (· ≠ .tooDeep) s busy' (infoAt depth b' t')
          fun i => b' = .root → ∀ c, i = .instanceOf c → s.program.Holds c t' :=
      ih amid' (by omega)
    have parts {part : TypeId} (isPart : part ∈ (s.program.types.get t).parts) :
        FailsOnly (· ≠ .tooDeep) s busy (infoAt depth b part)
          fun i => b = .root → ∀ c, i = .instanceOf c → s.program.Holds c part :=
      onward busy classes (depthFor_part founded isPart)
        (amid.onward fun _ inside => .part inside isPart)
    refine .program_bind ?_
    split
    case h_8 d isType =>
      refine .pure fun _ c isInstance => ?_
      cases isInstance
      exact .instance isType
    case h_9 d isType =>
      refine (FailsOnly.interfaceInfoBy fun new fields known f isField => ?_).mono
        fun i other _ c isInstance => absurd isInstance (other c)
      have fewer := s.program.left_cons_lt (Program.raw_lt_of_interfaceFields known) new
      refine (onward (d :: busy) classes (depthFor_lt (by omega) _ _) ?_).mono fun _ _ => trivial
      exact amid.onward fun _ inside => .field inside isType known isField
    case h_10 fields isType =>
      refine (FailsOnly.objectInfoBy fun f isField => (parts ?_).mono fun _ _ => trivial).mono
        fun i other _ c isInstance => absurd isInstance (other c)
      rw [isType]
      exact List.mem_map_of_mem isField
    case h_11 members isType =>
      refine (FailsOnly.unionInfoBy fun m isMember => parts ?_).mono
        fun i made isRoot c isInstance => ?_
      · rwa [isType]
      · obtain ⟨m, isMember, holds⟩ := made c isInstance
        exact .union isType isMember (holds isRoot c isInstance)
    case h_12 members isType =>
      have isPart {m : TypeId} (isMember : m ∈ members) : m ∈ (s.program.types.get t).parts := by
        rwa [isType]
      refine (FailsOnly.segmentsBy (fun m isMember => parts (isPart isMember)) ?_).bind fun _ _ =>
        (FailsOnly.shapeOfIntersection _ _).bind fun _ _ =>
          .pure fun _ c isInstance => by cases isInstance
      refine fun m isMember c holds => FailsOnly.layoutBy fun known t' isProperty => ?_
      have new : c ∉ classes := by
        rcases amid with rfl | ⟨isRoot, inside⟩
        · simp
        · exact fun laidOut => apart c ⟨t, members, m, inside c laidOut, isType, isMember,
            holds isRoot c rfl⟩
      have fewer := s.program.left_cons_lt known new
      refine (onward busy (c :: classes) (depthFor_lt (by omega) _ _) (.inr ⟨rfl, ?_⟩)).mono
        fun _ _ => trivial
      rintro c' (_ | ⟨_, laidOut⟩)
      · exact .property isProperty
      · rcases amid with rfl | ⟨isRoot, inside⟩
        · cases laidOut
        · exact .layout (inside c' laidOut) isType isMember (holds isRoot c rfl) isProperty
    case h_14 n isType =>
      split
      · rename_i info bound
        refine .pure fun isRoot => ?_
        rw [isRoot] at bound
        cases bound
      · exact .fail (by simp)
    all_goals exact .pure fun _ c isInstance => by cases isInstance

/-- The depth that is allowed is enough wherever the compiler is. -/
theorem depthFor_le_typeDepth (p : Program) (t : TypeId) :
    depthFor p (p.left busy + p.left []) t ≤ typeDepth p := by
  have interfaces := p.left_le busy
  have classes := p.left_le []
  have enough : p.left busy + p.left [] + 1 ≤ (p.decls.size + 1) * (p.decls.size + 1) := by
    rw [Nat.succ_mul, Nat.mul_succ]
    omega
  exact Nat.le_trans (depthFor_le p _ t) (Nat.mul_le_mul_right _ enough)

theorem infoOf_shallow (founded : s.program.TypesFounded) (apart : s.program.LayoutsApart)
    (b : Bindings) (t : TypeId) : FailsOnly (· ≠ .tooDeep) s busy (infoOf b t) fun _ => True :=
  .program_bind ((infoAt_shallow founded apart (.inl rfl) (depthFor_le_typeDepth _ t)).mono
    fun _ _ => trivial)

theorem layoutOf_shallow (founded : s.program.TypesFounded) (apart : s.program.LayoutsApart)
    (c : DeclId) : FailsOnly (· ≠ .tooDeep) s busy (layoutOf c) fun _ => True :=
  .layoutBy fun _ t _ => infoOf_shallow founded apart .root t

end Compile

end ShapeCompiler
