import ShapeCompiler.Proofs.Environments
import ShapeCompiler.Proofs.Quiet
import ShapeCompiler.Proofs.Readings

/-!
# Variables that are declared with a type

Where no type parameter stands in the type that a variable is declared with, the variable is taken
for what the type is read as, in every body that sees it.

* `Program.Fixes`: the type tells what the variable holds;
* `Info.HeldBy`: the variable is taken for what its type is read as;
* `Work.Typed`: all that declarations can see, and all environments, take variables so;
* `Compile.environmentOf_typed`: an environment that is laid out does;
* `Compile.specialize_typed`: and so do the parameters of a body that is asked for.

A parameter that is declared as anything, or as a function, is taken for what is passed for it.
-/

namespace ShapeCompiler

open Source Code Work

/-! ## Types that tell what is held -/

namespace Source.Program

/-- Neither the type nor any that stands in it mentions a type parameter. -/
def Concrete (p : Program) (t : TypeId) : Prop :=
    ∀ u, p.Within t u → p.types.mentionsParam u = false

/-- Values of the type are neither anything nor only known to be functions. -/
inductive Definite (p : Program) : TypeId → Prop
  | plain {t : TypeId} {i : Info} (isPlain : plainInfo? p t = some i) (notAny : i ≠ .any)
    (notClosure : ∀ c, i ≠ .closure c) : Definite p t
  | object {t : TypeId} {fields : List (Name × TypeId)}
    (isObject : p.types.get t = .object fields) :
    Definite p t
  | interface {t : TypeId} {d : DeclId} (isInterface : p.types.get t = .interface d) : Definite p t
  | intersection {t : TypeId} {members : List TypeId}
    (isIntersection : p.types.get t = .intersection members) : Definite p t
  | union {t member : TypeId} {members : List TypeId} (isUnion : p.types.get t = .union members)
    (inside : member ∈ members) (definite : Definite p member) : Definite p t

/-- The variable is declared with a type that tells what it holds. -/
inductive Fixes (p : Program) (v : DeclId) (t : TypeId) : Prop
  | binding {d : Decl} (known : p.decl v = .ok d) (isBinding : d.kind = .binding (some t))
    (concrete : p.Concrete t)
  | param {q : ParamDecl} (known : p.param v = .ok q) (isType : q.ty = t) (concrete : p.Concrete t)
    (definite : p.Definite t)

variable {p : Program} {t : TypeId} {v : DeclId}

/-- Nothing stands in a type without parts. -/
theorem Concrete.of_plain {i : Info} (isPlain : plainInfo? p t = some i)
    (noParam : p.types.mentionsParam t = false) : p.Concrete t := by
  intro u within
  cases within with
  | self => exact noParam
  | object isObject => simp [plainInfo?, isObject] at isPlain
  | interface isInterface => simp [plainInfo?, isInterface] at isPlain
  | union isUnion => simp [plainInfo?, isUnion] at isPlain

theorem Concrete.plain (h : p.Concrete t) : p.types.mentionsParam t = false := h t (.self t)

theorem Concrete.closed (h : p.Concrete t) : p.Closed t := by
  intro u n within isParam
  have mentions : p.types.mentionsParam u = true := by
    simp [TypeStore.mentionsParam, TypeStore.mentionsParamAt, isParam]
  exact Bool.false_ne_true ((h u within).symm.trans mentions)

theorem Fixes.concrete (h : p.Fixes v t) : p.Concrete t := by
  cases h with
  | binding _ _ concrete => exact concrete
  | param _ _ concrete => exact concrete

theorem decl_of_param {q : ParamDecl} (h : p.param v = .ok q) :
    ∃ decl, p.decl v = .ok decl ∧ decl.kind = .param q := by
  obtain ⟨decl, known, h⟩ := exists_of_bind_ok h
  split at h
  · rename_i isParam
    cases h
    exact ⟨decl, known, isParam⟩
  · cases h

/-- What is written at the declaration of a variable is its type. -/
theorem Fixes.of_binding (h : p.Fixes v t) {d : Decl} {ty : Option TypeId}
    (known : p.decl v = .ok d)
    (isBinding : d.kind = .binding ty) : ty = some t := by
  cases h with
  | binding known' isBinding' =>
    cases known.symm.trans known'
    cases isBinding.symm.trans isBinding'
    rfl
  | param known' =>
    obtain ⟨d', isDecl, isParam⟩ := decl_of_param known'
    cases known.symm.trans isDecl
    cases isBinding.symm.trans isParam

theorem Fixes.of_param (h : p.Fixes v t) {q : ParamDecl} (known : p.param v = .ok q) :
    q.ty = t ∧ p.Definite t := by
  cases h with
  | binding known' isBinding =>
    obtain ⟨d', isDecl, isParam⟩ := decl_of_param known
    cases known'.symm.trans isDecl
    cases isBinding.symm.trans isParam
  | param known' isType _ definite =>
    cases known.symm.trans known'
    exact ⟨isType, definite⟩

end Source.Program

/-! ## What types are read as -/

theorem Compile.mem_of_splitNull {infos members : List Info}
    (split : splitNull infos = (members, false)) : ∀ i ∈ infos, i ∈ members := by
  induction infos generalizing members with
  | nil => simp
  | cons first rest ih =>
    simp only [splitNull] at split
    split at split
    · cases split
    · obtain ⟨rfl, noNull⟩ := Prod.mk.inj split
      intro i inside
      rcases List.mem_cons.mp inside with rfl | later
      · exact List.mem_cons_self
      · by_cases same : i = first
        · exact same ▸ List.mem_cons_self
        · exact List.mem_cons_of_mem _ (List.mem_filter.mpr
            ⟨ih (Prod.ext rfl noNull) i later, by simp [same]⟩)

namespace Reading

variable {p : Program} {r : Registry} {b : Bindings} {t : TypeId} {i : Info}

/-- What a union is read as: null, the union itself, or what all its members are read as. -/
theorem of_union {infos : List Info} (named : unionReading? p r (Compile.splitNull infos) = some i)
    :
    i = .null ∨ (∃ id, i = .union id) ∨ ∀ i' ∈ infos, i' = i := by
  unfold unionReading? at named
  split at named
  · exact .inl (Option.some.inj named).symm
  · rename_i only split
    obtain rfl : only = i := Option.some.inj named
    exact .inr (.inr fun i' inside => List.mem_singleton.mp
      (Compile.mem_of_splitNull split i' inside))
  · obtain ⟨id, _, rfl⟩ := Option.map_eq_some_iff.mp named
    exact .inr (.inl ⟨id, rfl⟩)

/-- Outside of interfaces a definite type is read as something definite. By induction on why it
is. -/
theorem settled (definite : p.Definite t) (h : Reading p r b [] t i) :
    i ≠ .any ∧ ∀ c, i ≠ .closure c := by
  induction definite generalizing i with
  | @plain t _ isPlain notAny notClosure =>
    have alike : AlikeFor p b b [] [] t := ⟨fun _ _ _ _ => rfl, fun _ _ _ _ => .rfl⟩
    obtain rfl := h.unique (.plain isPlain) alike
    exact ⟨notAny, notClosure⟩
  | object isObject =>
    cases h with
    | object => simp
    | plain isPlain => simp [plainInfo?, isObject] at isPlain
    | _ => simp_all
  | interface isInterface =>
    cases h with
    | interface => simp
    | plain isPlain => simp [plainInfo?, isInterface] at isPlain
    | _ => simp_all
  | intersection isIntersection =>
    cases h with
    | intersection => simp
    | plain isPlain => simp [plainInfo?, isIntersection] at isPlain
    | _ => simp_all
  | @union t member members isUnion inside definite ih =>
    cases h with
    | @union _ _ members' infos _ isUnion' length nullish each named =>
      cases isUnion.symm.trans isUnion'
      rcases of_union named with rfl | ⟨id, rfl⟩ | all
      · simp
      · simp
      · obtain ⟨k, here⟩ := List.mem_iff_getElem?.mp inside
        have bound : k < infos.length := length ▸ (List.getElem?_eq_some_iff.mp here).1
        have there : infos[k]? = some infos[k] := List.getElem?_eq_getElem bound
        obtain same := all _ (List.getElem_mem bound)
        cases isNull : member.isNullish with
        | true => simp [← same, nullish k member _ here there isNull]
        | false => exact same ▸ ih (each k member _ here there isNull)
    | plain isPlain => simp [plainInfo?, isUnion] at isPlain
    | _ => simp_all

/-- A function type without type parameters is known by itself. By induction on the reading. -/
theorem closure_sig {busy : List DeclId} {c : ClosureInfo} (h : Reading p r b busy t (.closure c))
    (concrete : p.Concrete t) : c.sig.isSome := by
  generalize isClosure : Info.closure c = i at h
  induction h with
  | @plain busy t i isPlain =>
    subst isClosure
    unfold plainInfo? at isPlain
    split at isPlain
    all_goals cases isPlain
    simp [concrete.plain]
  | @param busy t n i isParam bound => exact absurd isParam (concrete.closed t n (.self t))
  | @union busy t members infos i isUnion length nullish each named ih =>
    subst isClosure
    rcases of_union named with isNull | ⟨id, isShape⟩ | all
    · cases isNull
    · cases isShape
    · cases infos with
      | nil => simp [Compile.splitNull, unionReading?] at named
      | cons first rest =>
        obtain ⟨member, here⟩ : ∃ member, members[0]? = some member :=
          ⟨_, List.getElem?_eq_getElem (by simp at length; omega)⟩
        have isFirst := all first List.mem_cons_self
        cases isNull : member.isNullish with
        | true => cases isFirst.symm.trans (nullish 0 member first here rfl isNull)
        | false =>
          exact ih 0 member first here rfl isNull
            (fun u within => concrete u (.union isUnion (List.mem_of_getElem? here) within))
              isFirst.symm
  | _ => cases isClosure

end Reading

/-- What is definite is taken as it is declared. -/
theorem paramInfo_eq {declared : Info} (notAny : declared ≠ .any)
    (notClosure : ∀ c, declared ≠ .closure c)
    (arg : Info) : paramInfo declared arg = declared := by
  cases declared with
  | any => exact absurd rfl notAny
  | closure c => exact absurd rfl (notClosure c)
  | _ => rfl

theorem Emit.variableInfo_eq {i : Info} (known : ∀ c, i = .closure c → c.sig.isSome)
    (start : Info) :
    variableInfo (some i) start = i := by
  cases i with
  | closure c =>
    have isKnown := known c rfl
    simp [variableInfo, Option.isNone_iff_eq_none, Option.isSome_iff_ne_none.mp isKnown]
  | _ => rfl

/-! ## What is taken as its type is read -/

/-- The variable is taken for what the type is read as that it is declared with, if this tells what
it holds. -/
def Info.HeldBy (s : Setup) (w : Work) (v : DeclId) (i : Info) : Prop :=
  ∀ t, s.program.Fixes v t → ∃ b, ReadAs s w b [] t i

/-- Every variable that can be reached is taken for what it is declared with. -/
structure Scope.Typed (s : Setup) (w : Work) (scope : Scope) : Prop where
  reachable : ∀ v ptr i, scope.variableOf v = some (.cell ptr i) → i.HeldBy s w v
  named : ∀ n v ptr i, scope.lookup n = some (.cell ptr i) → scope.declarationOf n = some v →
    i.HeldBy s w v

/-- The slots take their variables for what they are declared with. -/
def EnvSlot.Typed (s : Setup) (w : Work) (slot : EnvSlot) : Prop :=
  ∀ v, slot.var = some v → slot.info.HeldBy s w v

/-- No interface is being lowered, and what declarations can see and what environments hold is taken
for what it is declared with. -/
structure Work.Typed (s : Setup) (w : Work) : Prop where
  idle : w.interfacesInProgress = []
  top : w.moduleScope.Typed s w
  sites : ∀ d site, w.sites.get? d = some site → site.scope.Typed s w
  envs : ∀ id e, w.registry.env? id = some e → ∀ slot ∈ e.slots, slot.Typed s w

/-- The parameters of the body are taken for what they are declared with. -/
def Specialization.Typed (s : Setup) (w : Work) (spec : Specialization) : Prop :=
  ∀ params, s.program.formals spec.key.subject.decl = .ok params →
    ∀ (k : Nat) (v : DeclId) (i : Info), params[k]? = some v → spec.key.params[k]? =
      some i → i.HeldBy s w v

/-- The slots of parameters are filled with what the parameters are declared with. -/
def Environment.Takes (s : Setup) (w : Work) (e : Environment) (params : List Info) : Prop :=
  ∀ (k : Nat) (slot : EnvSlot) (i : Info), e.slots[k]? = some slot → slot.origin = .param →
    params[k]? = some i → ∀ v, slot.var = some v → i.HeldBy s w v

variable {s : Setup} {w w' : Work}

theorem Environment.Takes.nil (e : Environment) : e.Takes s w [] := by
  rintro k slot i here isParam ⟨⟩

namespace Info.HeldBy

variable {v : DeclId} {i i' : Info}

theorem further (h : i.HeldBy s w v) (more : w.registry.shapes.toList <+: w'.registry.shapes.toList)
    :
    i.HeldBy s w' v := fun t fixes =>
  (h t fixes).imp fun _ read => ⟨read.known.further more, fun r more' =>
    read.reading r (more.trans more')⟩

theorem later (h : i.HeldBy s w v) (later : Later s w w') : i.HeldBy s w' v :=
    h.further later.shapes

/-- A type that tells what a variable holds tells one thing. -/
theorem unique (h : i.HeldBy s w v) (h' : i'.HeldBy s w v) {t : TypeId}
    (fixes : s.program.Fixes v t) :
    i = i' := by
  obtain ⟨b, read⟩ := h t fixes
  obtain ⟨b', read'⟩ := h' t fixes
  exact read.unique read' (.of_closed fixes.concrete.closed)

end Info.HeldBy

namespace Scope.Typed

variable {scope base : Scope} {n : Name} {d : DeclId} {ptr : ValueId} {info : Info}

theorem further (h : scope.Typed s w) (more :
    w.registry.shapes.toList <+: w'.registry.shapes.toList) :
    scope.Typed s w' :=
  ⟨fun v ptr i here => (h.reachable v ptr i here).further more,
    fun n v ptr i here isDecl => (h.named n v ptr i here isDecl).further more⟩

theorem later (h : scope.Typed s w) (later : Later s w w') : scope.Typed s w' :=
    h.further later.shapes

theorem empty : Scope.empty.Typed s w := ⟨by rintro v ptr i ⟨⟩, by rintro n v ptr i ⟨⟩⟩

/-- What is bound without a declaration is none of these variables. -/
theorem bind (h : scope.Typed s w) (n : Name) (b : Binding) : (scope.bind n b).Typed s w := by
  refine ⟨h.reachable, fun n' v ptr i here isDecl => ?_⟩
  by_cases same : n = n'
  · subst same
    simp [Scope.bind, declarationOf, Table.get?_erase] at isDecl
  · refine h.named n' v ptr i ?_ ?_
    · simpa [Scope.bind, lookup, Table.get?_insert_ne _ _ same] using here
    · simpa [Scope.bind, declarationOf, Table.get?_erase, same] using isDecl

theorem bindHidden (h : scope.Typed s w) (held : info.HeldBy s w d) :
    (scope.bindHidden d ptr info).Typed s w := by
  refine ⟨fun v ptr' i here => ?_, h.named⟩
  by_cases same : d = v
  · subst same
    have isNew : some (Binding.cell ptr info) = some (.cell ptr' i) := by
      simpa [Scope.bindHidden, variableOf, Table.get?_insert_self] using here
    cases isNew
    exact held
  · exact h.reachable v ptr' i (by
      simpa [Scope.bindHidden, variableOf, Table.get?_insert_ne _ _ same] using here)

theorem bindDeclared (h : scope.Typed s w) (held : info.HeldBy s w d) :
    (scope.bindDeclared n d ptr info).Typed s w := by
  refine ⟨(h.bindHidden held).reachable, fun n' v ptr' i here isDecl => ?_⟩
  by_cases same : n = n'
  · subst same
    have isNew : some (Binding.cell ptr info) = some (.cell ptr' i) := by
      simpa [Scope.bindDeclared, lookup, Table.get?_insert_self] using here
    have isOwn : some d = some v := by
      simpa [Scope.bindDeclared, declarationOf, Table.get?_insert_self] using isDecl
    cases isNew
    cases isOwn
    exact held
  · refine h.named n' v ptr' i ?_ ?_
    · simpa [Scope.bindDeclared, lookup, Table.get?_insert_ne _ _ same] using here
    · simpa [Scope.bindDeclared, declarationOf, Table.get?_insert_ne _ _ same] using isDecl

/-- A scope in which no name is that of a variable does not matter. By induction on its entries. -/
theorem overlays {top : Scope} (h : base.Typed s w) (none : ∀ n, top.declarationOf n = none)
    (entries : List (Name × Binding)) :
    Scope.Typed s w (entries.foldl (fun s (n, b) => overlay top s n b) base) := by
  induction entries generalizing base with
  | nil => exact h
  | cons entry rest ih =>
    obtain ⟨n, b⟩ := entry
    have isBind : overlay top base n b = base.bind n b := by simp only [overlay, none, Scope.bind]
    refine ih (?_ : Scope.Typed s w (overlay top base n b))
    exact isBind ▸ h.bind n b

/-- What a body sees at its start. -/
theorem onTopOf (top : Scope) (h : base.Typed s w) :
    (top.declarationView.onTopOf base).Typed s w :=
  h.overlays (fun _ => rfl) _

end Scope.Typed

namespace Work.Typed

theorem start : Typed s .start where
  idle := rfl
  top := .empty
  sites := by rintro d site ⟨⟩
  envs := by
    intro id e known
    simp [Registry.env?, Work.start] at known

/-- All that is typed stays as it is. -/
theorem stays (h : w.Typed s) (later : Later s w w')
    (idle : w'.interfacesInProgress = w.interfacesInProgress)
    (scope : w'.moduleScope = w.moduleScope)
    (sites : w'.sites = w.sites) (envs : w'.registry.envs = w.registry.envs) : w'.Typed s where
  idle := idle.trans h.idle
  top := scope ▸ h.top.later later
  sites d site known := (h.sites d site (sites ▸ known)).later later
  envs id e known slot inside v isVar :=
    (h.envs id e (by simpa [Registry.env?, envs] using known) slot inside v isVar).later later

/-- A name at the top is bound to what is no variable of a body. -/
theorem bindTop (h : w.Typed s) (n : Name) (b : Binding) :
    Typed s { w with moduleScope := w.moduleScope.bind n b } where
  idle := h.idle
  top := (h.top.bind n b).further (List.prefix_refl _)
  sites d site known := (h.sites d site known).further (List.prefix_refl _)
  envs id e known slot inside v isVar := (h.envs id e known slot inside v isVar).further
    (List.prefix_refl _)

/-- What declarations can see is recorded. -/
theorem recorded (h : w.Typed s) {sites : Table DeclId Site}
    (typed : ∀ d site, sites.get? d = some site → site.scope.Typed s w) :
    Typed s { w with sites } where
  idle := h.idle
  top := h.top.further (List.prefix_refl _)
  sites d site known := (typed d site known).further (List.prefix_refl _)
  envs id e known slot inside v isVar := (h.envs id e known slot inside v isVar).further
    (List.prefix_refl _)

/-- Functions and layouts do not matter. -/
theorem of_same (h : w.Typed s) (idle : w'.interfacesInProgress = w.interfacesInProgress)
    (scope : w'.moduleScope = w.moduleScope) (sites : w'.sites = w.sites)
    (registry : w'.registry = w.registry) : w'.Typed s := by
  have more : w.registry.shapes.toList <+: w'.registry.shapes.toList :=
    registry ▸ List.prefix_refl _
  refine ⟨idle.trans h.idle, scope ▸ h.top.further more, fun d site known => ?_,
    fun id e known slot inside v isVar => ?_⟩
  · exact (h.sites d site (sites ▸ known)).further more
  · exact (h.envs id e (registry ▸ known) slot inside v isVar).further more

/-- The variables that the search finds at such a site are taken for what they are declared with. -/
theorem gathered (h : w.Typed s) {site : Site} (typed : site.scope.Typed s w) {free : FreeNames}
    {owner : DeclId} {cls : Option DeclId} {found : Gathered}
    (ran : Survey.gather ⟨s.program, w, site, free⟩ owner cls = .ok found) :
    ∀ c ∈ found.captures, ∀ v, c.var = some v → c.info.HeldBy s w v := by
  have seen (site' : Site) (sees : Survey.Sees ⟨s.program, w, site, free⟩ site') :
      site'.scope.Typed s w := by
    rcases sees with rfl | ⟨d, recorded⟩
    · exact typed
    · exact h.sites d site' recorded
  have rules : Survey.Rules ⟨s.program, w, site, free⟩ (fun _ => True)
      (fun var info => ∀ v, var = some v → info.HeldBy s w v)
      (fun g => ∀ c ∈ g.captures, ∀ v, c.var = some v → c.info.HeldBy s w v) fun _ => True := by
    constructor
    case seen => exact fun site' sees n ptr info here v isDecl =>
      (seen site' sees).named n v ptr info here isDecl
    case laidOut =>
      intro id e known c inside
      obtain ⟨slot, isSlot, captured⟩ := List.mem_filterMap.mp inside
      split at captured
      · cases captured
        exact ⟨trivial, h.envs id e known slot isSlot⟩
      · cases captured
    case capture =>
      intro n var info _ held
      refine Survey.capture_keeps _ (fun g before _ _ c inside => ?_) trivial
      rcases List.mem_append.mp inside with old | new
      · exact before c old
      · rw [List.mem_singleton] at new
        exact new ▸ held
    case receiver => exact fun _ before => before
    case visited => exact fun _ _ before => before
    all_goals simp
  have ends : Settles _ _ (Survey.gather ⟨s.program, w, site, free⟩ owner cls) :=
    rules.gather cls (by simp)
  rw [ran] at ends
  exact ends

end Work.Typed

namespace Compile

/-! ## What is laid out -/

theorem paramSlot_typed (moment : Moment s w) (idle : w.interfacesInProgress = []) {d : DeclId}
    {slot : EnvSlot} (ran : paramSlot d s w = .ok slot w') : slot.Typed s w' := by
  obtain ⟨q, w₁, ran₁, rest₁⟩ := of_bind_ok ran
  obtain ⟨rfl, isParam⟩ := of_asks_ok ran₁
  obtain ⟨info, w₂, ran₂, rest₂⟩ := of_bind_ok rest₁
  obtain ⟨decl, w₃, ran₃, rest₃⟩ := of_bind_ok rest₂
  obtain ⟨rfl, -⟩ := of_asks_ok ran₃
  cases rest₃
  intro v isVar t fixes
  obtain rfl : d = v := Option.some.inj isVar
  obtain ⟨rfl, -⟩ := fixes.of_param isParam
  change (if s.program.types.mentionsParam q.ty then pure Info.any else infoOf .root q.ty :
    Compile Info)
    s w = _ at ran₂
  rw [fixes.concrete.plain, if_neg Bool.false_ne_true] at ran₂
  exact ⟨.root, idle ▸ ((infoOf_closed moment .root q.ty).of_ok ran₂).2 fixes.concrete.closed⟩

theorem paramSlots_typed (moment : Moment s w) (idle : w.interfacesInProgress = [])
    (params : List DeclId) : Ends s w (params.mapM paramSlot) fun slots w' =>
      ∀ slot ∈ slots, slot.Typed s w' := by
  have each (d : DeclId) (w₁ : Work) (there : Reaches s w w₁) :
      Ends s w₁ (paramSlot d) fun slot w' => slot.Typed s w' := by
    have moment₁ := moment.later there.later
    exact (paramSlot_ends moment₁ d).ran.mono fun slot w' _ ran =>
      paramSlot_typed moment₁ (there.interfaces.trans idle) ran.1
  refine (Ends.mapM_since (fun d _ => each d) fun _ _ _ _ typed there v isVar =>
    (typed v isVar).later there.later).mono fun slots w' _ all => ?_
  exact forall_mem_of_forall₂ all fun _ _ typed => typed

/-- The slots of an environment that is laid out: its parameters, what is found around, the
receiver, which is no variable, and what environments around hold. -/
theorem layOut_typed (moment : Moment s w) (typed : w.Typed s) {owner : DeclId} {id : EnvId}
    (ran : layOut owner s w = .ok id w') (there : Reaches s w w') : w'.Typed s := by
  obtain ⟨site, plan, found, params, w₁, w₂, e, declEnvs, isSite, -, ran₁, ran₂, still,
    registry, slots,
    rfl⟩ := of_layOut_ok ran
  have still₁ : Still w w₁ := (Quiet.mapM paramSlot_quiet _).still ran₂
  have isParam := ((paramSlots_typed moment typed.idle plan.params).of_ok ran₂).2
  have more : w₁.registry.shapes.toList <+: w₂.registry.shapes.toList :=
    registry ▸ List.prefix_refl _
  obtain ⟨_, free, _, gathered⟩ := of_capturesOf_ok ran₁
  obtain ⟨d, recorded⟩ := siteOf_recorded isSite
  have isCapture := typed.gathered (typed.sites d site recorded) gathered
  obtain ⟨taken, sub, merged⟩ := addOuter_taken (plan.ownSlots site params found)
    (site.around w₁.registry)
  refine ⟨there.interfaces.trans typed.idle, ?_, fun d' site' known => ?_, fun id' e' known => ?_⟩
  · have top := typed.top.later there.later
    rwa [← (still₁.trans still).scope] at top
  · exact (typed.sites d' site' ((still₁.trans still).sites ▸ known)).later there.later
  rcases Registry.Extends.of_env?_addEnv (r := w₂.registry) known with rfl | old
  · intro slot inside v isVar
    rw [slots, merged, EnvPlan.ownSlots] at inside
    simp only [List.append_assoc, List.mem_append] at inside
    rcases inside with inside | inside | inside | inside
    · exact (isParam slot inside v isVar).further more
    · obtain ⟨c, captured, rfl⟩ := List.mem_map.mp inside
      exact (isCapture c captured v isVar).later there.later
    · unfold EnvPlan.receiverSlots at inside
      split at inside
      · obtain rfl := List.mem_singleton.mp inside
        cases isVar
      · cases inside
    · obtain ⟨⟨j, b⟩, isTaken, rfl⟩ := List.mem_map.mp inside
      obtain ⟨id₀, around, _, isAround, at'⟩ := outer_of_mem_around (sub.subset isTaken)
      have isOld : w.registry.env? id₀ = some around := by
        simpa only [Registry.env?, still₁.envs] using isAround
      exact (typed.envs id₀ around isOld b (List.mem_of_getElem? at') v isVar).later there.later
  · have isOld : w.registry.env? id' = some e' := by
      simpa only [Registry.env?, (still₁.trans still).envs] using old
    intro slot inside v isVar
    exact (typed.envs id' e' isOld slot inside v isVar).later there.later

theorem environmentOf_typed (moment : Moment s w) (typed : w.Typed s) {owner : DeclId} {id : EnvId}
    (ran : environmentOf owner s w = .ok id w') : w'.Typed s := by
  have there := ((environmentOf_ends moment owner).of_ok ran).1
  obtain ⟨r, w₁, ran₁, ran⟩ := of_bind_ok ran
  cases ran₁
  cases known : w.registry.declEnv? owner with
  | some id' =>
    simp only [known] at ran
    cases ran
    exact typed
  | none =>
    simp only [known] at ran
    exact layOut_typed moment typed ran there

theorem syntheticEnv_typed (moment : Moment s w) (typed : w.Typed s) {params : Nat} {id : EnvId}
    (ran : syntheticEnv params s w = .ok id w') : w'.Typed s := by
  have there := ((syntheticEnv_ends moment params).of_ok ran).1
  obtain ⟨_, w₁, ran₁, ran⟩ := of_bind_ok ran
  cases ran₁
  cases known : w.syntheticEnvs.get? params with
  | some id' =>
    simp only [known] at ran
    cases ran
    exact typed
  | none =>
    simp only [known] at ran
    obtain ⟨record, w₁, ran₁, ran⟩ := of_bind_ok ran
    obtain ⟨env, w₂, ran₂, ran⟩ := of_bind_ok ran
    cases ran₂
    cases ran
    cases ran₁
    refine ⟨there.interfaces.trans typed.idle, typed.top.later there.later,
      fun d site known => (typed.sites d site known).later there.later, fun id' e' known => ?_⟩
    rcases Registry.Extends.of_env?_addEnv (r := w.registry) known with rfl | old
    · intro slot inside
      cases inside
    · exact fun slot inside v isVar => (typed.envs id' e' old slot inside v isVar).later there.later

/-! ## What bodies are asked for -/

theorem paramInfos_typed (moment : Moment s w) (idle : w.interfacesInProgress = []) (b : Bindings)
    (params : List DeclId) (args : List Info) : Ends s w (paramInfos b params args) fun infos w' =>
      List.Forall₂ (fun d i => i.HeldBy s w' d) params infos := by
  induction params generalizing w args with
  | nil => exact .pure .nil
  | cons d rest ih =>
    refine asks_bind fun q isParam => (infoOf_closed moment b q.ty).bind fun i w₁ there₁ read => ?_
    have idle₁ := there₁.interfaces.trans idle
    refine (ih (moment.later there₁.later) idle₁ args.tail).bind fun infos w₂ there₂ all =>
      .pure (.cons ?_ all)
    intro t fixes
    obtain ⟨rfl, definite⟩ := fixes.of_param isParam
    rw [idle] at read
    have isRead := read fixes.concrete.closed
    have keeps : args.head?.elim i (paramInfo i) = i := by
      obtain ⟨notAny, notClosure⟩ := (isRead.reading _ (List.prefix_refl _)).settled definite
      cases args.head? with
      | none => rfl
      | some arg => exact paramInfo_eq notAny notClosure arg
    refine ⟨b, ?_⟩
    rw [keeps]
    exact isRead.later there₂.later

theorem formals_ends (subject : Subject) : Ends s w (formals subject) fun found _ =>
    ∀ params, s.program.formals subject.decl = .ok params → found.1 = params := by
  cases subject with
  | function d =>
    refine asks_bind fun f isFunction => .pure fun params known => ?_
    obtain ⟨decl, isDecl, kind⟩ := Program.decl_of_function isFunction
    simpa [Program.formals, Subject.decl, isDecl, kind, Bind.bind, Except.bind, pure, Except.pure]
      using known
  | implicitConstructor c =>
    refine asks_bind fun forwarded isForwarded => .pure fun params known => ?_
    obtain ⟨cls, isClass⟩ := Program.classDecl_of_forwardedParams isForwarded
    obtain ⟨decl, isDecl, kind⟩ := Program.decl_of_classDecl isClass
    simpa [Program.formals, Subject.decl, isDecl, kind, Bind.bind, Except.bind, isForwarded]
      using known

theorem specialize_typed (moment : Moment s w) (idle : w.interfacesInProgress = [])
    (subject : Subject)
    (cls : Option DeclId) (args : List Info) : Ends s w (specialize subject cls args) fun spec w' =>
      spec.Typed s w' := by
  refine .program_bind (((siteOf_walks _).ends moment).bind fun site w₁ there₁ _ => ?_)
  have moment₁ := moment.later there₁.later
  refine (formals_ends subject).bind fun formals w₂ there₂ isFormals => ?_
  have moment₂ := moment₁.later there₂.later
  refine ((ask_walks _).ends moment₂).bind fun bindings w₃ there₃ _ => ?_
  split
  · exact .throw trivial
  have idle₃ := ((there₁.trans there₂).trans there₃).interfaces.trans idle
  refine (paramInfos_typed (moment₂.later there₃.later) idle₃ bindings _ args).bind
    fun infos w₄ _ all => ?_
  refine .pure fun params known k v i here there => ?_
  rw [← isFormals params known] at here
  exact of_forall₂ all here there

end Compile

theorem TailOrder.not_param {slots : List EnvSlot} (h : TailOrder slots) :
    ∀ slot ∈ slots, slot.origin ≠ .param := by
  cases h with
  | mk captured one receiver outer =>
    intro slot inside
    simp only [List.append_assoc, List.mem_append] at inside
    rcases inside with inside | inside | inside
    · simp [captured slot inside]
    · simp [receiver slot inside]
    · simp [outer slot inside]

theorem Specialization.Typed.later {spec : Specialization} (h : spec.Typed s w)
    (later : Later s w w') :
    spec.Typed s w' := fun params known k v i here there =>
    (h params known k v i here there).later later

/-- The slots of parameters stand first, in the order of the parameters. -/
theorem Specialization.Typed.takes {spec : Specialization} {id : EnvId} {e : Environment}
    (h : spec.Typed s w) (moment : Moment s w) (known : w.registry.env? id = some e)
    (owned : e.owner = some spec.key.subject.decl) : e.Takes s w spec.key.params := by
  have formed := moment.formed known owned
  obtain ⟨params, isFormals, all⟩ := formed.formals
  intro k slot i here isParam there v isVar
  by_cases first : k < e.paramCount
  · have isSlot : (e.slots.take e.paramCount)[k]? = some slot := by
      rwa [List.getElem?_take_of_lt first]
    have bound : k < params.length := by
      have := (List.getElem?_eq_some_iff.mp isSlot).1
      rwa [← all.length_eq] at this
    have of := Compile.of_forall₂ all (List.getElem?_eq_getElem bound) isSlot
    obtain rfl : params[k] = v := Option.some.inj (of.var.symm.trans isVar)
    exact h params isFormals k _ i (List.getElem?_eq_getElem bound) there
  · have isSlot : (e.slots.drop e.paramCount)[k - e.paramCount]? = some slot := by
      rwa [List.getElem?_drop, Nat.add_sub_cancel' (Nat.not_lt.mp first)]
    exact absurd isParam (formed.order.not_param slot (List.mem_of_getElem? isSlot))

end ShapeCompiler
