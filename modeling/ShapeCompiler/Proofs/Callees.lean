import ShapeCompiler.Proofs.Overrides

/-!
# How declarations are called

* `Program.Called`: a member is called on an object; without one is called what a statement
  declares, what a call is known to reach, or a static member;
* `Program.called_of_findFunction` and its like: what is looked up among members is called on an
  object;
* `Scope.Declares`: a name that means a function means one that a statement declares.
-/

namespace ShapeCompiler

open Source Code

namespace Source.Program

variable {p : Program} {n : Name} {d m : DeclId} {decl : Decl} {kinds : List FunctionKind}

/-- The declaration can be called by a name: a statement declares it, or a call is known to reach
it. -/
inductive Named (p : Program) (d : DeclId) : Prop where
  | declared {st : StmtId} (declares : (p.stmt st).kind = .function d) : Named p d
  | reached {e callee : ExprId} {args : List ExprId}
    (calls : (p.expr e).kind = .call callee args (some d)) : Named p d

/-- How the declaration is called: a member on an object, and without one what has a name or belongs
to its class alone. -/
inductive Called (p : Program) (d : DeclId) : Bool → Prop where
  | onObject {f : FunctionDecl} (isFunction : p.function d = .ok f)
    (isMember : f.kind.isMember = true) : Called p d true
  | byName (named : p.Named d) : Called p d false
  | ofClass {decl : Decl} (isDecl : p.decl d = .ok decl) (isStatic : decl.flags.static = true) :
    Called p d false

/-! ## Members -/

theorem called_of_isFunctionOf (isDecl : p.decl d = .ok decl) (accepted : isFunctionOf kinds decl)
    (members : ∀ k ∈ kinds, k.isMember = true) : p.Called d true := by
  unfold isFunctionOf at accepted
  split at accepted
  · rename_i f isFunction
    refine .onObject (f := f) ?_ (members f.kind (of_decide_eq_true accepted))
    simp only [function, isDecl, bind, Except.bind, isFunction]
    rfl
  · cases accepted

theorem called_of_findFunction (members : ∀ k ∈ kinds, k.isMember = true) (classes : List DeclId)
    (h : p.findFunction n kinds classes = .ok (some m)) : p.Called m true := by
  induction classes with
  | nil => cases h
  | cons c rest ih =>
    obtain ⟨cls, _, h⟩ := exists_of_bind_ok h
    obtain ⟨own, inClass, h⟩ := exists_of_bind_ok h
    cases own with
    | none => exact ih h
    | some m' =>
      cases h
      obtain ⟨_, _, decl, _, _, isDecl, accepted⟩ := findMember_first cls.members inClass
      exact called_of_isFunctionOf isDecl (Bool.and_eq_true_iff.mp accepted).2 members

/-- What a list is made of, where each part may fail. -/
theorem exists_of_mapM_ok {ε α β : Type} {k : α → Except ε β} {as : List α} {bs : List β}
    (made : as.mapM k = .ok bs) {b : β} (inside : b ∈ bs) : ∃ a ∈ as, k a = .ok b := by
  induction as generalizing bs with
  | nil =>
    cases made
    simp at inside
  | cons a as ih =>
    rw [List.mapM_cons] at made
    obtain ⟨first, isFirst, made⟩ := exists_of_bind_ok made
    obtain ⟨others, areOthers, made⟩ := exists_of_bind_ok made
    cases made
    rcases List.mem_cons.mp inside with rfl | later
    · exact ⟨a, List.mem_cons_self, isFirst⟩
    · obtain ⟨a', isThere, here⟩ := ih areOthers later
      exact ⟨a', List.mem_cons_of_mem _ isThere, here⟩

/-- Each part is made. -/
theorem made_of_mapM_ok {ε α β : Type} {k : α → Except ε β} {as : List α} {bs : List β}
    (made : as.mapM k = .ok bs) {a : α} (inside : a ∈ as) : ∃ b ∈ bs, k a = .ok b := by
  induction as generalizing bs with
  | nil => simp at inside
  | cons first as ih =>
    rw [List.mapM_cons] at made
    obtain ⟨b, isFirst, made⟩ := exists_of_bind_ok made
    obtain ⟨others, areOthers, made⟩ := exists_of_bind_ok made
    cases made
    rcases List.mem_cons.mp inside with rfl | later
    · exact ⟨b, List.mem_cons_self, isFirst⟩
    · obtain ⟨b', isThere, here⟩ := ih areOthers later
      exact ⟨b', List.mem_cons_of_mem _ isThere, here⟩

theorem mem_of_filterM_ok {ε α : Type} {test : α → Except ε Bool} {as bs : List α}
    (made : as.filterM test = .ok bs) {b : α} (inside : b ∈ bs) : b ∈ as := by
  have among : ∀ (as acc bs : List α), as.filterAuxM test acc = .ok bs → b ∈ bs →
      b ∈ as ∨ b ∈ acc := by
    intro as
    induction as with
    | nil =>
      intro acc bs made inside
      cases made
      exact .inr inside
    | cons a as ih =>
      intro acc bs made inside
      obtain ⟨accepted, _, made⟩ := exists_of_bind_ok made
      rcases ih _ _ made inside with later | earlier
      · exact .inl (List.mem_cons_of_mem _ later)
      · cases accepted with
        | false => exact .inr earlier
        | true =>
          rcases List.mem_cons.mp earlier with rfl | before
          · exact .inl List.mem_cons_self
          · exact .inr before
  obtain ⟨found, areFound, made⟩ := exists_of_bind_ok made
  cases made
  have := among as [] found areFound (List.mem_reverse.mp inside)
  simpa using this

theorem called_of_ownFunctions {cls : DeclId} {kind : FunctionKind} {found : List DeclId}
    (isMember : kind.isMember = true) (h : p.ownFunctions cls kind = .ok found)
    (inside : m ∈ found) :
    p.Called m true := by
  obtain ⟨all, areMembers, h⟩ := exists_of_bind_ok h
  cases h
  obtain ⟨⟨_, decl⟩, isThere, rfl⟩ := List.mem_map.mp inside
  obtain ⟨isListed, accepted⟩ := List.mem_filter.mp isThere
  obtain ⟨c, _, areMembers⟩ := exists_of_bind_ok areMembers
  obtain ⟨m', _, made⟩ := exists_of_mapM_ok areMembers isListed
  obtain ⟨decl', isDecl, made⟩ := exists_of_bind_ok made
  cases made
  exact called_of_isFunctionOf isDecl accepted (by simpa using isMember)

theorem called_of_constructorOf {cls : DeclId} (h : p.constructorOf cls = .ok (some m)) :
    p.Called m true := by
  obtain ⟨own, areOwn, h⟩ := exists_of_bind_ok h
  exact called_of_ownFunctions rfl areOwn (List.mem_of_mem_head? (Except.ok.inj h))

theorem called_of_namedVirtuals {cls : DeclId} {methods : List (Name × DeclId)}
    (h : p.namedVirtuals cls = .ok methods) (inside : (n, m) ∈ methods) : p.Called m true := by
  obtain ⟨virtuals, areVirtual, h⟩ := exists_of_bind_ok h
  obtain ⟨m', isThere, made⟩ := exists_of_mapM_ok h inside
  obtain ⟨decl, _, made⟩ := exists_of_bind_ok made
  cases made
  obtain ⟨own, areOwn, areVirtual⟩ := exists_of_bind_ok areVirtual
  exact called_of_ownFunctions rfl areOwn (mem_of_filterM_ok areVirtual isThere)

end Source.Program

/-! ## Names -/

theorem Table.mem_of_find?_eq_some {α β : Type} [DecidableEq α] {k : α} {v : β}
    {entries : List (α × β)} (found : find? k entries = some v) : (k, v) ∈ entries := by
  induction entries with
  | nil => cases found
  | cons entry rest ih =>
    obtain ⟨a, b⟩ := entry
    rw [find?] at found
    split at found
    · rename_i same
      cases same
      cases found
      exact List.mem_cons_self
    · exact List.mem_cons_of_mem _ (ih found)

theorem Table.mem_of_mem_put {α β : Type} [DecidableEq α] {k k' : α} {v v' : β}
    {entries : List (α × β)} (inside : (k', v') ∈ put k v entries) :
    (k', v') = (k, v) ∨ (k', v') ∈ entries := by
  induction entries with
  | nil => exact .inl (List.mem_singleton.mp inside)
  | cons entry rest ih =>
    obtain ⟨a, b⟩ := entry
    rw [put] at inside
    split at inside
    · exact (List.mem_cons.mp inside).imp_right (List.mem_cons_of_mem _)
    · rcases List.mem_cons.mp inside with first | later
      · exact .inr (first ▸ List.mem_cons_self)
      · exact (ih later).imp_right (List.mem_cons_of_mem _)

namespace Scope

variable {p : Program} {top base : Scope} {n : Name}

/-- A name that means a function means one that a statement declares. -/
def Declares (p : Program) (scope : Scope) : Prop :=
  ∀ n d, (n, .function d) ∈ scope.bindings.entries → p.Named d

theorem Declares.named {d : DeclId} (h : base.Declares p)
    (here : base.lookup n = some (.function d)) :
    p.Named d := h n d (Table.mem_of_find?_eq_some here)

theorem Declares.empty : Scope.empty.Declares p := by
  rintro n d ⟨⟩

theorem Declares.bind {b : Binding} (h : base.Declares p)
    (named : ∀ d, b = .function d → p.Named d) :
    (base.bind n b).Declares p := by
  intro n' d inside
  rcases Table.mem_of_mem_put inside with new | old
  · cases new
    exact named d rfl
  · exact h n' d old

theorem Declares.bindDeclared {d : DeclId} {ptr : ValueId} {info : Info} (h : base.Declares p) :
    (base.bindDeclared n d ptr info).Declares p := by
  intro n' d' inside
  rcases Table.mem_of_mem_put inside with new | old
  · cases new
  · exact h n' d' old

theorem Declares.overlays (top : Scope) (entries : List (Name × Binding)) (h : base.Declares p)
    (named : ∀ n d, (n, .function d) ∈ entries → p.Named d) :
    Declares p (entries.foldl (fun s (n, b) => overlay top s n b) base) := by
  induction entries generalizing base with
  | nil => exact h
  | cons entry rest ih =>
    obtain ⟨n, b⟩ := entry
    have under : Declares p (overlay top base n b) := by
      intro n' d inside
      rcases Table.mem_of_mem_put inside with new | old
      · cases new
        exact named n d List.mem_cons_self
      · exact h n' d old
    exact ih under fun n' d later => named n' d (List.mem_cons_of_mem _ later)

/-- What a body sees at its start. -/
theorem Declares.onTopOf (h : top.Declares p) (h' : base.Declares p) :
    (top.declarationView.onTopOf base).Declares p :=
  Declares.overlays top.declarationView _ h' fun n d inside => h n d (List.mem_filter.mp inside).1

end Scope

end ShapeCompiler
