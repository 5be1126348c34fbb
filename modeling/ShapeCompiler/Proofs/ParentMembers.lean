import ShapeCompiler.Proofs.MethodValues
import ShapeCompiler.Proofs.WellFormed

/-!
# What `super` refers to

* `Frame.Within`: the frames of a body that a member of a class is compiled to, and those of the
  functions that stand in such a body, at any depth;
* `Frame.Within.classes`: a member goes by the class that declares it, whatever class it is compiled
  for; a function that stands in it goes by the class that it is compiled for;
* `parent_members_resolved`: so the first method above the one class or the other is called and
  read.

The two classes are the same unless the member is inherited. Where it is, `super` in an arrow is not
what it is around the arrow.
-/

namespace ShapeCompiler

open Source Code Work

/-- The body is that of a member of the class: of a function that it declares, or of the constructor
that it does not write out. -/
inductive Source.Subject.MemberOf (p : Program) (owner : DeclId) : Subject → Prop where
  | function {d : DeclId} {f : FunctionDecl} (known : p.function d = .ok f)
    (isMember : f.kind.isMember = true) (owned : f.owner = some owner) :
      MemberOf p owner (.function d)
  | implicitConstructor : MemberOf p owner (.implicitConstructor owner)

namespace Compile

variable {s : Setup} {w w' : Work} {l : Lowering}

/-- The site of a body, and the frame with which it begins. -/
def begin (spec : Specialization) (func : FuncId) (returning : Returning) :
    Compile (Site × Frame) := do
  let site ← siteOf spec.key.subject.decl
  return (site, {
    draft := Draft.start func [.ptr]
    scope := site.scope.declarationView.onTopOf (← get).moduleScope
    bindings := spec.bindings
    returning
    receiverClass := spec.key.receiverClass <|> site.receiverClass
    memberOwner := ← memberOwnerOf spec.key.subject site })

/-- A body is compiled from the frame with which it begins. -/
theorem body_eq (spec : Specialization) (func : FuncId) (env : EnvId) (returning : Returning) :
    body l spec func env returning = (do
      let begun ← begin spec func returning
      let ended ← (Emit.wholeBody l spec env begun.1).run begun.2
      return (ended.2.draft.finish, ended.2.returning)) := by
  simp only [body, begin, bind_assoc, pure_bind]

theorem of_begin_ok {spec : Specialization} {func : FuncId} {returning : Returning} {site : Site}
    {begun : Frame} (ran : begin spec func returning s w = .ok (site, begun) w') :
    siteOf spec.key.subject.decl s w = .ok site w ∧
      (∃ w₁, memberOwnerOf spec.key.subject site s w = .ok begun.memberOwner w₁) ∧
      begun.receiverClass = (spec.key.receiverClass <|> site.receiverClass) := by
  obtain ⟨site', w₁, ran₁, rest₁⟩ := of_bind_ok ran
  obtain ⟨rfl, -⟩ := of_siteOf_ok ran₁
  obtain ⟨_, w₂, ran₂, rest₂⟩ := of_bind_ok rest₁
  cases ran₂
  obtain ⟨owner, w₃, ran₃, rest₃⟩ := of_bind_ok rest₂
  cases rest₃
  exact ⟨ran₁, ⟨w', ran₃⟩, rfl⟩

/-- In a sound state the frame refers to nothing but the environment, which is its parameter. -/
theorem begin_stands {spec : Specialization} {func : FuncId} {returning : Returning} {site : Site}
    {begun : Frame} (sound : w.Sound s) (ran : begin spec func returning s w = .ok (site, begun) w')
    :
    ∃ g, begun.Stands s w' g ∧ begun.draft.Has g (Draft.param 0) ∧ site.scope.Typed s w' := by
  obtain ⟨site', w₁, ran₁, rest₁⟩ := of_bind_ok ran
  obtain ⟨rfl, isSite⟩ := of_siteOf_ok ran₁
  obtain ⟨d, recorded⟩ := siteOf_recorded isSite
  have seen := sound.typed.sites d site' recorded
  obtain ⟨_, w₂, ran₂, rest₂⟩ := of_bind_ok rest₁
  cases ran₂
  obtain ⟨owner, w₃, ran₃, rest₃⟩ := of_bind_ok rest₂
  obtain ⟨proceeds, sound₃⟩ :=
    (Sound.of_quiet (memberOwnerOf_walks _ _) (memberOwnerOf_quiet _ _)).goes sound ran₃
  cases rest₃
  refine ⟨_, .start func [.ptr] sound₃ rfl rfl
    (.onTopOf (sound.sites d site recorded) sound.declares)
    ((Scope.Typed.onTopOf site.scope sound.typed.top).later proceeds.later)
    fun v => sound.not_uses rfl rfl rfl v, ?_, seen.later proceeds.later⟩
  exact ⟨⟨0⟩, ⟨rfl, _, rfl, rfl⟩, .inl Nat.zero_lt_one⟩

/-- The class to which `super` refers in a member is the one that declares it. -/
theorem memberOwnerOf_member {owner : DeclId} {subject : Subject} {site : Site}
    {found : Option DeclId} (isMember : subject.MemberOf s.program owner)
    (ran : memberOwnerOf subject site s w = .ok found w') : found = some owner := by
  cases isMember with
  | implicitConstructor =>
    cases ran
    rfl
  | @function d f known isMember owned =>
    obtain ⟨f', w₁, asked, ran⟩ := of_bind_ok ran
    obtain ⟨-, known'⟩ := of_asks_ok asked
    obtain rfl : f = f' := Except.ok.inj (known.symm.trans known')
    simp only [isMember, if_true] at ran
    cases ran
    exact owned

/-- In any other function it is the class that the body around is compiled for. -/
theorem memberOwnerOf_other {d : DeclId} {f : FunctionDecl} {site : Site} {found : Option DeclId}
    (known : s.program.function d = .ok f) (noMember : f.kind.isMember = false)
    (ran : memberOwnerOf (.function d) site s w = .ok found w') : found = site.receiverClass := by
  obtain ⟨f', w₁, asked, ran⟩ := of_bind_ok ran
  obtain ⟨-, known'⟩ := of_asks_ok asked
  obtain rfl : f = f' := Except.ok.inj (known.symm.trans known')
  simp only [noMember, Bool.false_eq_true, if_false] at ran
  cases ran
  rfl

end Compile

/-! ## The frames of a member -/

/-- The frame is one of a body that a member of the class `owner` is compiled to for the class
`cls`, or, if it is an inner one, of a function that stands in such a body, at any depth. -/
inductive Frame.Within (s : Setup) (owner cls : DeclId) : Bool → Frame → Prop where
  | member {spec : Specialization} {func : FuncId} {returning : Returning} {site : Site}
    {w w' : Work} {begun f : Frame} (isMember : spec.key.subject.MemberOf s.program owner)
    (compiledFor : spec.key.receiverClass = some cls)
    (begins : Compile.begin spec func returning s w = .ok (site, begun) w')
    (same : begun.SameBody f) : Within s owner cls false f
  /-- What the function can see was recorded in a frame of the body around it. -/
  | nested {inner : Bool} {around : Frame} {d : DeclId} {fn : FunctionDecl} {spec : Specialization}
    {func : FuncId} {returning : Returning} {site : Site} {w w' : Work} {begun f : Frame}
    (outer : Within s owner cls inner around) (known : s.program.function d = .ok fn)
    (noMember : fn.kind.isMember = false) (isSubject : spec.key.subject = .function d)
    (noReceiver : spec.key.receiverClass = none) (stands : w.sites.get? d = some around.site)
    (begins : Compile.begin spec func returning s w = .ok (site, begun) w')
    (same : begun.SameBody f) : Within s owner cls true f

namespace Frame.Within

variable {s : Setup} {owner cls : DeclId} {inner : Bool} {w w' : Work}
  {f f' : Frame} {g g' : Sketch}

/-- The class to which `super` refers: the one that declares the member, but in a function that
stands in the member the one that it is compiled for. -/
def parentOf (owner cls : DeclId) (inner : Bool) : DeclId := if inner then cls else owner

/-- By induction on how deep the function stands: each takes the class over from the site that the
body around it recorded, which does not tell what class declares the member. -/
theorem classes (h : Within s owner cls inner f) :
    f.receiverClass = some cls ∧ f.memberOwner = some (parentOf owner cls inner) := by
  induction h with
  | member isMember compiledFor begins same =>
    obtain ⟨-, ⟨_, isOwner⟩, isClass⟩ := Compile.of_begin_ok begins
    rw [same.receiverClass, same.memberOwner, isClass, compiledFor]
    exact ⟨rfl, Compile.memberOwnerOf_member isMember isOwner⟩
  | @nested _ around d _ _ _ _ site w _ _ _ _ known noMember isSubject noReceiver stands
      begins same ih =>
    obtain ⟨isSite, ⟨_, isOwner⟩, isClass⟩ := Compile.of_begin_ok begins
    have recorded : site = around.site := by
      have found : Compile.siteOf d s w = .ok around.site w := by
        have here : (get : Compile Work) s w = .ok w w := rfl
        have asked : Compile.program s w = .ok s.program w := rfl
        simp only [Compile.siteOf, Compile.bind_apply, here, asked, Work.siteOf, stands]
        rfl
      rw [isSubject] at isSite
      have agree := isSite.symm.trans found
      simpa using agree
    have isReceiver : site.receiverClass = some cls := by rw [recorded]; exact ih.1
    rw [isSubject] at isOwner
    rw [same.receiverClass, same.memberOwner, isClass, noReceiver,
      Compile.memberOwnerOf_other known noMember isOwner, isReceiver]
    exact ⟨rfl, rfl⟩

theorem sameBody (h : Within s owner cls inner f) (same : f.SameBody f') :
    Within s owner cls inner f' := by
  cases h with
  | member isMember compiledFor begins begun =>
    exact .member isMember compiledFor begins (begun.trans same)
  | nested outer known noMember isSubject noReceiver stands begins begun =>
    exact .nested outer known noMember isSubject noReceiver stands begins (begun.trans same)

/-- Whatever is written of a body, its frames stay within the member. -/
theorem flowed (h : Within s owner cls inner f) (flowed : f.Flowed s w g w' f' g') :
    Within s owner cls inner f' := h.sameBody flowed.sameBody

end Frame.Within

namespace Compile

variable {s : Setup} {w w' : Work} {l : Lowering} {spec : Specialization}
  {func : FuncId} {env : EnvId}
  {returning : Returning} {owner cls : DeclId} {result : Code.Body × Returning}

theorem begin_of_body_ok (ran : body l spec func env returning s w = .ok result w') :
    ∃ site begun ended w₁, begin spec func returning s w = .ok (site, begun) w₁ ∧
      Emit.wholeBody l spec env site begun s w₁ = .ok ((), ended) w' := by
  rw [body_eq] at ran
  obtain ⟨⟨site, begun⟩, w₁, begins, ran⟩ := of_bind_ok ran
  obtain ⟨⟨_, ended⟩, w₂, whole, ran⟩ := of_bind_ok ran
  cases ran
  exact ⟨site, begun, ended, w₁, begins, whole⟩

/-- The body of a member begins within it. -/
theorem member_body_within (isMember : spec.key.subject.MemberOf s.program owner)
    (compiledFor : spec.key.receiverClass = some cls)
    (ran : body l spec func env returning s w = .ok result w') :
    ∃ site begun ended w₁, begun.Within s owner cls false ∧
      Emit.wholeBody l spec env site begun s w₁ = .ok ((), ended) w' := by
  obtain ⟨site, begun, ended, w₁, begins, whole⟩ := begin_of_body_ok ran
  exact ⟨site, begun, ended, w₁, .member isMember compiledFor begins (.refl begun), whole⟩

/-- So does the body of a function, if a frame within the member recorded what it can see. -/
theorem nested_body_within {inner : Bool} {around : Frame} {d : DeclId} {fn : FunctionDecl}
    (outer : around.Within s owner cls inner) (known : s.program.function d = .ok fn)
    (noMember : fn.kind.isMember = false) (isSubject : spec.key.subject = .function d)
    (noReceiver : spec.key.receiverClass = none) (stands : w.sites.get? d = some around.site)
    (ran : body l spec func env returning s w = .ok result w') :
    ∃ site begun ended w₁, begun.Within s owner cls true ∧
      Emit.wholeBody l spec env site begun s w₁ = .ok ((), ended) w' := by
  obtain ⟨site, begun, ended, w₁, begins, whole⟩ := begin_of_body_ok ran
  exact ⟨site, begun, ended, w₁,
    .nested outer known noMember isSubject noReceiver stands begins (.refl begun), whole⟩

end Compile

/-! ## Members of the base class -/

namespace Emit

variable {s : Setup} {owner cls : DeclId} {inner : Bool} {w w' : Work} {f f' : Frame} {l : Lowering}
  {n : Name} {v : Operand}

theorem of_memberOwner_ok {found : DeclId} (ran : memberOwner f s w = .ok (found, f') w') :
    f' = f ∧ w' = w ∧ f.memberOwner = some found := by
  obtain ⟨_, f₁, w₁, ran₁, ran⟩ := of_bind_ok ran
  cases ran₁
  cases isOwner : f.memberOwner with
  | none =>
    rw [isOwner] at ran
    cases ran
  | some found' =>
    rw [isOwner] at ran
    cases ran
    exact ⟨rfl, rfl, rfl⟩

theorem of_receiver_ok {this : Operand} (ran : receiver f s w = .ok (this, f') w') :
    f' = f ∧ w' = w ∧ f.receiver = some this := by
  obtain ⟨_, f₁, w₁, ran₁, ran⟩ := of_bind_ok ran
  cases ran₁
  cases isReceiver : f.receiver with
  | none =>
    rw [isReceiver] at ran
    cases ran
  | some this' =>
    rw [isReceiver] at ran
    cases ran
    exact ⟨rfl, rfl, rfl⟩

/-- Each declaration can see what the frame shows. -/
theorem of_recordSites_ok {decls : List DeclId} {u : Unit}
    (ran : recordSites decls f s w = .ok (u, f') w') :
    f' = f ∧ ∀ d ∈ decls, w'.sites.get? d = some f.site := by
  have recorded : ∀ (ds : List DeclId) (w : Work),
      (ds.forM fun d => liftM (Compile.recordSite d f.site) : Emit PUnit) f s w = .ok (u, f') w' →
        f' = f ∧ (∀ d ∈ ds, w'.sites.get? d = some f.site) ∧
          ∀ d, w.sites.get? d = some f.site → w'.sites.get? d = some f.site := by
    intro ds
    induction ds with
    | nil =>
      intro w ran
      cases ran
      exact ⟨rfl, by simp, fun _ known => known⟩
    | cons d ds ih =>
      intro w ran
      obtain ⟨_, f₁, w₁, ran₁, ran₂⟩ := of_bind_ok ran
      obtain ⟨rfl, made⟩ := of_lift_ok ran₁
      cases made
      obtain ⟨same, all, stays⟩ := ih _ ran₂
      refine ⟨same, List.forall_mem_cons.mpr ⟨stays d (Table.get?_insert_self _ _ _), all⟩, ?_⟩
      intro d' known
      refine stays d' ?_
      by_cases apart : d = d'
      · subst apart
        exact Table.get?_insert_self _ _ _
      · exact (Table.get?_insert_ne _ _ apart).trans known
  obtain ⟨same, all, -⟩ := recorded decls w ran
  exact ⟨same, all⟩

theorem of_findMember_ok {chain : List DeclId} {kind : FunctionKind} {found : Option DeclId}
    (ran : (liftM (findMember chain n kind) : Emit (Option DeclId)) f s w = .ok (found, f') w') :
    f' = f ∧ w' = w ∧ s.program.findFunction n [kind] chain = .ok found := by
  obtain ⟨isFrame, isWork, answer⟩ := of_asks_ok ran
  exact ⟨isFrame.symm, isWork.symm, answer⟩

/-- The method that is called is the first one above the class to which `super` refers; it is
compiled for the class that the body around is compiled for. -/
theorem of_callParentMethod_ok (within : f.Within s owner cls inner) {args : List Operand}
    (ran : callParentMethod l n args f s w = .ok (v, f') w') :
    ∃ chain m this, s.program.classChain (Frame.Within.parentOf owner cls inner) = .ok chain ∧
      s.program.FirstMethod n (chain.drop 1) m ∧ f.receiver = some this ∧
      callDecl l m (some ⟨this, cls⟩) args f s w = .ok (v, f') w' := by
  obtain ⟨isClass, isOwner⟩ := within.classes
  obtain ⟨found, f₁, w₁, ran₁, rest₁⟩ := of_bind_ok ran
  obtain ⟨rfl, rfl, found⟩ := of_memberOwner_ok ran₁
  cases Option.some.inj (isOwner.symm.trans found)
  obtain ⟨chain, f₂, w₂, ran₂, rest₂⟩ := of_bind_ok rest₁
  obtain ⟨rfl, rfl, isChain⟩ := of_asks_ok ran₂
  obtain ⟨method, f₃, w₃, ran₃, rest₃⟩ := of_bind_ok rest₂
  obtain ⟨rfl, rfl, search⟩ := of_findMember_ok ran₃
  have first := Program.findFunction_first _ search
  cases method with
  | none =>
    obtain ⟨_, f₄, w₄, ran₄, rest₄⟩ := of_bind_ok rest₃
    obtain ⟨_, f₅, w₅, ran₅, rest₅⟩ := of_bind_ok rest₄
    cases rest₅
  | some m =>
    obtain ⟨this, f₄, w₄, ran₄, rest₄⟩ := of_bind_ok rest₃
    obtain ⟨rfl, rfl, isReceiver⟩ := of_receiver_ok ran₄
    obtain ⟨_, f₅, w₅, ran₅, rest₅⟩ := of_bind_ok rest₄
    cases ran₅
    rw [isClass] at rest₅
    exact ⟨chain, m, this, isChain, first, isReceiver, rest₅⟩

/-- A getter above the class is called, whatever methods there are; a method is read as a value.
What has neither is read from the object. -/
theorem of_readParent_ok (within : f.Within s owner cls inner)
    (ran : readParent l n f s w = .ok (v, f') w') :
    ∃ chain this, s.program.classChain (Frame.Within.parentOf owner cls inner) = .ok chain ∧
      f.receiver = some this ∧
      ((∃ m, s.program.findFunction n [.getter] (chain.drop 1) = .ok (some m) ∧
          callDecl l m (some ⟨this, cls⟩) [] f s w = .ok (v, f') w') ∨
        s.program.findFunction n [.getter] (chain.drop 1) = .ok none ∧
          ((∃ m, s.program.FirstMethod n (chain.drop 1) m ∧
              boundMethod l this cls m f s w = .ok (v, f') w') ∨
            (∀ c ∈ chain.drop 1, ¬ s.program.DeclaresMethod c n) ∧
              l.readProperty this n f s w = .ok (v, f') w')) := by
  obtain ⟨isClass, isOwner⟩ := within.classes
  obtain ⟨found, f₁, w₁, ran₁, rest₁⟩ := of_bind_ok ran
  obtain ⟨rfl, rfl, found⟩ := of_memberOwner_ok ran₁
  cases Option.some.inj (isOwner.symm.trans found)
  obtain ⟨this, f₂, w₂, ran₂, rest₂⟩ := of_bind_ok rest₁
  obtain ⟨rfl, rfl, isReceiver⟩ := of_receiver_ok ran₂
  obtain ⟨_, f₃, w₃, ran₃, rest₃⟩ := of_bind_ok rest₂
  cases ran₃
  obtain ⟨chain, f₄, w₄, ran₄, rest₄⟩ := of_bind_ok rest₃
  obtain ⟨rfl, rfl, isChain⟩ := of_asks_ok ran₄
  obtain ⟨getter, f₅, w₅, ran₅, rest₅⟩ := of_bind_ok rest₄
  obtain ⟨rfl, rfl, noGetter⟩ := of_findMember_ok ran₅
  rw [isClass] at rest₅
  refine ⟨chain, this, isChain, isReceiver, ?_⟩
  cases getter with
  | some m => exact .inl ⟨m, noGetter, rest₅⟩
  | none =>
    refine .inr ⟨noGetter, ?_⟩
    obtain ⟨method, f₆, w₆, ran₆, rest₆⟩ := of_bind_ok rest₅
    obtain ⟨rfl, rfl, search⟩ := of_findMember_ok ran₆
    have first := Program.findFunction_first _ search
    cases method with
    | some m => exact .inl ⟨m, first, rest₆⟩
    | none => exact .inr ⟨first, rest₆⟩

end Emit

/-- A member of the base class, wherever it is called or read in a body of a member or in a function
that stands in one: the first method above the class that declares the member is called, whatever
class it is compiled for; in a function that stands in the member, the first one above the class
that it is compiled for. A read takes a getter first. The object is that of the body, and what is
called is again compiled for the same class. Every body of a member begins with such a frame, and so
does every body of a function that one of these frames recorded. -/
theorem parent_members_resolved {s : Setup} {owner cls : DeclId} {inner : Bool}
    {w : Work} {f : Frame}
    {g : Sketch} (within : f.Within s owner cls inner) (stands : f.Stands s w g) (depth : Nat)
    {object : ExprId} (isParent : (s.program.expr object).kind = .parent) (n : Name) :
    (∀ args v f' w', Emit.memberCall (.ofDepth depth) object n args f s w = .ok (v, f') w' →
      ∃ chain m values f₁ w₁ this,
        s.program.classChain (if inner then cls else owner) = .ok chain ∧
        s.program.FirstMethod n (chain.drop 1) m ∧
        (Lowering.ofDepth depth).exprs args f s w = .ok (values, f₁) w₁ ∧
        f₁.receiver = f.receiver ∧ f.receiver = some this ∧
        Emit.callDecl (.ofDepth depth) m (some ⟨this, cls⟩) values f₁ s w₁ = .ok (v, f') w') ∧
    (∀ v f' w', Emit.property (.ofDepth depth) object n f s w = .ok (v, f') w' →
      ∃ chain this, s.program.classChain (if inner then cls else owner) = .ok chain ∧
        f.receiver = some this ∧
        ((∃ m, s.program.findFunction n [.getter] (chain.drop 1) = .ok (some m) ∧
            Emit.callDecl (.ofDepth depth) m (some ⟨this, cls⟩) [] f s w = .ok (v, f') w') ∨
          s.program.findFunction n [.getter] (chain.drop 1) = .ok none ∧
            ((∃ m, s.program.FirstMethod n (chain.drop 1) m ∧
                Emit.boundMethod (.ofDepth depth) this cls m f s w = .ok (v, f') w') ∨
              (∀ c ∈ chain.drop 1, ¬ s.program.DeclaresMethod c n) ∧
                (Lowering.ofDepth depth).readProperty this n f s w = .ok (v, f') w'))) ∧
    ∀ spec func env returning result w₁ w₂,
      Compile.body (.ofDepth depth) spec func env returning s w₁ = .ok result w₂ →
        (spec.key.subject.MemberOf s.program owner → spec.key.receiverClass = some cls →
          ∃ site begun ended w₃, begun.Within s owner cls false ∧
            Emit.wholeBody (.ofDepth depth) spec env site begun s w₃ = .ok ((), ended) w₂) ∧
        ∀ d fn, s.program.function d = .ok fn → fn.kind.isMember = false →
          spec.key.subject = .function d → spec.key.receiverClass = none →
          w₁.sites.get? d = some f.site → ∃ site begun ended w₃, begun.Within s owner cls true ∧
            Emit.wholeBody (.ofDepth depth) spec env site begun s w₃ = .ok ((), ended) w₂ := by
  refine ⟨?_, ?_, fun spec func env returning result w₁ w₂ ran => ⟨fun isMember compiledFor => ?_,
    fun d fn known noMember isSubject noReceiver recorded => ?_⟩⟩
  · intro args v f' w' ran
    have parent : Emit.memberCall (.ofDepth depth) object n args f s w =
        (do Emit.callParentMethod (.ofDepth depth) n (← (Lowering.ofDepth depth).exprs args)) f s
            w := by
      have asked : (liftM Compile.program : Emit Program) f s w = .ok (s.program, f) w := rfl
      rw [Emit.memberCall, Emit.lift_bind_apply]
      simp only [Compile.program_bind_apply, isParent]
    rw [parent] at ran
    obtain ⟨values, f₁, w₁, evaluated, called⟩ := Emit.of_bind_ok ran
    obtain ⟨g₁, goes, _⟩ := ((Lowering.ofDepth_sound depth).exprs args).goes
      (U := fun _ => False) stands (by simp) evaluated
    obtain ⟨chain, m, this, isChain, first, isReceiver, called⟩ :=
      Emit.of_callParentMethod_ok (within.sameBody goes.sameBody) called
    exact ⟨chain, m, values, f₁, w₁, this, isChain, first, evaluated, goes.receiver,
      goes.receiver ▸ isReceiver, called⟩
  · intro v f' w' ran
    have parent : Emit.property (.ofDepth depth) object n f s w =
        Emit.readParent (.ofDepth depth) n f s w := by
      rw [Emit.property, Emit.lift_bind_apply]
      simp only [Compile.program_bind_apply, isParent]
    rw [parent] at ran
    exact Emit.of_readParent_ok within ran
  · exact Compile.member_body_within isMember compiledFor ran
  · exact Compile.nested_body_within within known noMember isSubject noReceiver recorded ran

/-! ## An inherited member with an arrow -/

/-- A class, one below it that has a method of the same name and calls that of the base class,
directly and from an arrow, and a third class below, on an instance of which both calls are made. -/
@[irreducible] def parentCalls : Program := (Id.run <| StateT.run (do
  let a ← Construction.classDecl "A" none .none
  let b ← Construction.classDecl "B" (some a) .none
  let c ← Construction.classDecl "C" (some b) .none
  let answering (e : ExprId) : Building (List StmtId) := do
    return [← Construction.stmt (.ret (some e))]
  let method (cls : DeclId) (name : String) (answer : ExprId) : Building Unit := do
    discard <| Construction.method cls name [] (some .boolean) (← answering answer) .none
  let parent ← Construction.expr .parent
  method a "m" (← Construction.expr (.bool true))
  method b "m" (← Construction.expr (.bool false))
  method b "direct" (← Construction.methodCall parent "m" [])
  let (arrow, _) ← Construction.arrow [] [] (some .boolean)
    (.expr (← Construction.methodCall parent "m" []))
  method b "nested" (← Construction.expr (.call arrow [] none))
  for cls in [a, b, c] do Construction.pushEntry (← Construction.stmt (.classDecl cls))
  let declare (name : String) (value : ExprId) : Building Unit := do
    let (declared, _) ← Construction.bind name none (some value)
    Construction.pushEntry declared
  declare "x" (← Construction.expr (.construct c []))
  declare "a" (← Construction.methodCall (← Construction.ident "x") "direct" [])
  declare "b" (← Construction.methodCall (← Construction.ident "x") "nested" []) :
    Building Unit) {}).2.program

/-- The state once the classes are declared. -/
def parentCallsWork : Work :=
  Compile.endOf ((Lowering.ofDepth 20).block (parentCalls.entry.take 3) topFrame)
    (.of parentCalls .ambient {}) (.opened {})

/-- Begins a body without parameters and binds what its environment holds. -/
def Compile.started (d : DeclId) (cls : Option DeclId) : Compile Frame := do
  let env ← environmentOf d
  let begun ← begin ⟨⟨.function d, cls, [], []⟩, .root⟩ ⟨0⟩ (.value none none)
  let bound ← (Emit.prologue env [] begun.1).run begun.2
  return bound.2

theorem Compile.started_stands {s : Setup} {w w' : Work} {d : DeclId} {cls : Option DeclId}
    {f : Frame} (sound : w.Sound s) (ran : started d cls s w = .ok f w') :
    ∃ g w₁ w₂ site begun, f.Stands s w' g ∧ w₁.sites = w.sites ∧ begun.SameBody f ∧
      begin ⟨⟨.function d, cls, [], []⟩, .root⟩ ⟨0⟩ (.value none none) s w₁ =
        .ok (site, begun) w₂ := by
  obtain ⟨env, w₁, ran₁, rest₁⟩ := of_bind_ok ran
  obtain ⟨-, sound₁⟩ := (Sound.environmentOf d).goes sound ran₁
  obtain ⟨⟨site, begun⟩, w₂, ran₂, rest₂⟩ := of_bind_ok rest₁
  obtain ⟨⟨_, bound⟩, w₃, ran₃, rest₃⟩ := of_bind_ok rest₂
  cases rest₃
  obtain ⟨g, stands, has, seen⟩ := begin_stands sound₁ ran₂
  obtain ⟨g', begun'⟩ := Emit.prologue_begun env stands has (fun e _ => .nil e) seen ran₃
  exact ⟨g', w₁, w₂, site, begun, begun'.stands, (Calm.of_beside (environmentOf_beside ran₁)).sites,
    begun'.sameBody, ran₂⟩

/-- Compiles the call in the method, and in the arrow that stands in it. -/
def parentCallsMade : Compile ((Frame × Operand) × Frame × Operand) := do
  let outer ← Compile.started ⟨5⟩ (some ⟨2⟩)
  let called ← (Emit.memberCall (.ofDepth 20) ⟨0⟩ ⟨4⟩ []).run outer
  let _ ← (Emit.recordSites [⟨6⟩]).run outer
  let inner ← Compile.started ⟨6⟩ none
  let called' ← (Emit.memberCall (.ofDepth 20) ⟨0⟩ ⟨4⟩ []).run inner
  return ((outer, called.1), inner, called'.1)

theorem parentCallsWork_sound : parentCallsWork.Sound (.of parentCalls .ambient {}) := by
  obtain ⟨_, ran, _⟩ := Compile.of_gives (show Compile.gives
    ((Lowering.ofDepth 20).block (parentCalls.entry.take 3) topFrame) (.of parentCalls .ambient {})
    (.opened {}) (fun _ => true) by decide +kernel)
  exact (Compile.opened_sound parentCalls .ambient {}).after_top ran

/-- The method of the class between is compiled for the class below, and the arrow in it. The method
calls the method of the class above, the arrow that of the class between. -/
theorem parent_members_resolved_parentCalls : ∃ outer inner w w',
    outer.Within (.of parentCalls .ambient {}) ⟨1⟩ ⟨2⟩ false ∧
    inner.Within (.of parentCalls .ambient {}) ⟨1⟩ ⟨2⟩ true ∧
    (∃ this result w₁,
      Emit.memberCall (.ofDepth 20) ⟨0⟩ ⟨4⟩ [] outer (.of parentCalls .ambient {})
      w = .ok result w₁ ∧
      Emit.callDecl (.ofDepth 20) ⟨3⟩ (some ⟨this, ⟨2⟩⟩) [] outer (.of parentCalls .ambient {}) w =
        .ok result w₁) ∧
    ∃ this result w₁,
      Emit.memberCall (.ofDepth 20) ⟨0⟩ ⟨4⟩ [] inner (.of parentCalls .ambient {})
      w' = .ok result w₁ ∧
      Emit.callDecl (.ofDepth 20) ⟨4⟩ (some ⟨this, ⟨2⟩⟩) [] inner (.of parentCalls .ambient {}) w' =
        .ok result w₁ := by
  have isParent : (parentCalls.expr ⟨0⟩).kind = .parent := by
    have word : (parentCalls.expr ⟨0⟩).kind.word = "Super" := by decide +kernel
    cases kind : (parentCalls.expr ⟨0⟩).kind <;> simp [kind, ExprKind.word] at word ⊢
  obtain ⟨_, made, _⟩ := Compile.of_gives (show Compile.gives parentCallsMade
    (.of parentCalls .ambient {}) parentCallsWork (fun _ => true) by decide +kernel)
  obtain ⟨outer, w₁, begun, rest₁⟩ := Compile.of_bind_ok made
  obtain ⟨⟨result, f₁⟩, w₂, called, rest₂⟩ := Compile.of_bind_ok rest₁
  obtain ⟨⟨_, f₃⟩, w₃, recorded, rest₃⟩ := Compile.of_bind_ok rest₂
  obtain ⟨inner, w₄, begun', rest₄⟩ := Compile.of_bind_ok rest₃
  obtain ⟨⟨result', f₂⟩, w₅, called', -⟩ := Compile.of_bind_ok rest₄
  -- the method begins in a sound state
  obtain ⟨g, v₁, v₂, site, start, stands, -, same, begins⟩ :=
    Compile.started_stands parentCallsWork_sound begun
  have isMember : Subject.MemberOf parentCalls ⟨1⟩ (.function ⟨5⟩) := by
    have kept : (parentCalls.function ⟨5⟩).toOption.map (fun f => (f.kind.isMember, f.owner)) =
        some (true, some ⟨1⟩) := by decide +kernel
    obtain ⟨f, known, kept⟩ := Option.map_eq_some_iff.mp kept
    obtain ⟨isMember, owned⟩ := Prod.mk.inj kept
    exact .function (toOption_eq_some_iff.mp known) isMember owned
  have within : outer.Within (.of parentCalls .ambient {}) ⟨1⟩ ⟨2⟩ false := by
    refine .member ?_ rfl begins same
    exact isMember
  obtain ⟨g₁, goes, -⟩ := (Emit.memberCall_sound (Lowering.ofDepth_sound 20) ⟨0⟩ ⟨4⟩ []).goes
    (U := fun _ => False) stands (by simp) called
  -- the arrow sees what the method recorded
  have stands₂ : outer.Stands (.of parentCalls .ambient {}) w₂ g :=
    ⟨goes.sound, stands.grounded.later goes.later, stands.declares, stands.typed.later goes.later,
      stands.fits, stands.isOpen,
      stands.holds⟩
  obtain ⟨g₂, goes₂, -⟩ := (Emit.recordSites_sound [⟨6⟩]).goes (U :=
    fun _ => False) stands₂ (by simp)
    recorded
  obtain ⟨-, sites⟩ := Emit.of_recordSites_ok recorded
  obtain ⟨g', v₁', v₂', site', start', stands', sameSites, same', begins'⟩ :=
    Compile.started_stands goes₂.sound begun'
  obtain ⟨arrow, isArrow, noMember⟩ : ∃ fn, parentCalls.function ⟨6⟩ = .ok fn ∧
      fn.kind.isMember = false := by
    have kept : (parentCalls.function ⟨6⟩).toOption.map (·.kind.isMember) = some false := by
      decide +kernel
    obtain ⟨fn, known, kept⟩ := Option.map_eq_some_iff.mp kept
    exact ⟨fn, toOption_eq_some_iff.mp known, kept⟩
  have nested : inner.Within (.of parentCalls .ambient {}) ⟨1⟩ ⟨2⟩ true := by
    refine .nested within isArrow noMember rfl rfl ?_ begins' same'
    rw [sameSites]
    exact sites _ List.mem_cons_self
  refine ⟨outer, inner, w₁, w₄, within, nested, ?_, ?_⟩
  · obtain ⟨chain, m, values, f, w, this, isChain, first, evaluated, -, -, ran⟩ :=
      (parent_members_resolved within stands 20 isParent ⟨4⟩).1 _ _ _ _ called
    cases evaluated
    have above : parentCalls.classChain ⟨1⟩ = .ok [⟨1⟩, ⟨0⟩] := by decide +kernel
    obtain rfl : [⟨1⟩, ⟨0⟩] = chain := Except.ok.inj (above.symm.trans isChain)
    have found : parentCalls.findFunction ⟨4⟩ [.method] [⟨0⟩] = .ok (some ⟨3⟩) := by decide +kernel
    obtain rfl : ⟨3⟩ = m := (Program.findFunction_first _ found).unique first
    exact ⟨this, _, _, called, ran⟩
  · obtain ⟨chain, m, values, f, w, this, isChain, first, evaluated, -, -, ran⟩ :=
      (parent_members_resolved nested stands' 20 isParent ⟨4⟩).1 _ _ _ _ called'
    cases evaluated
    have above : parentCalls.classChain ⟨2⟩ = .ok [⟨2⟩, ⟨1⟩, ⟨0⟩] := by decide +kernel
    obtain rfl : [⟨2⟩, ⟨1⟩, ⟨0⟩] = chain := Except.ok.inj (above.symm.trans isChain)
    have found : parentCalls.findFunction ⟨4⟩ [.method] [⟨1⟩, ⟨0⟩] = .ok (some ⟨4⟩) := by
      decide +kernel
    obtain rfl : ⟨4⟩ = m := (Program.findFunction_first _ found).unique first
    exact ⟨this, _, _, called', ran⟩

/-- The call in the method gives what the class above does, the same call in the arrow what the
class between does: the program compiles, runs and shows both. -/
theorem inherited_arrow_calls_nearer : ∃ unit v machine,
    compileUnitWithin 20 parentCalls .ambient {} = .ok unit ∧
    (Machine.ofModule unit.code).callFunction unit.entry [] = (.ok v, machine) ∧
    machine.state.memory.truth? "global.a" = some true ∧
    machine.state.memory.truth? "global.b" = some false :=
  CompiledUnit.of_truths? (by decide +kernel)

end ShapeCompiler
