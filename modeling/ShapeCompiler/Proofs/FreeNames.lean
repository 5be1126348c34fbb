import ShapeCompiler.Proofs.Mentions

/-!
# The names that a body reports

* `Program.mem_declared`: what a function declares is what one of its blocks declares;
* `Mentions.enclosed`: the blocks around a mention are blocks of the functions around it;
* `Program.Linked`: what a program refers to is there, so that every body can be walked;
* `Program.freeNames_reported`: a name is reported exactly if it is mentioned where nothing around
  binds it and no block of a function around declares it.
-/

namespace ShapeCompiler.Source

namespace Program

open Found

/-! ## Blocks of a function -/

section Blocks

variable {p : Program} {r : Reference} {n : Name} {d : DeclId}

/-- From a statement to one in a block of it. -/
def StepsInto (p : Program) (s s' : StmtId) : Prop := ∃ block ∈ (p.stmt s).kind.blocks, s' ∈ block

/-- A declaration is made in at most so many steps into the blocks of a statement. -/
abbrev DeclaredIn (p : Program) (d : DeclId) : Nat → StmtId → Prop :=
  LeadsIn p.StepsInto fun s => (p.stmt s).kind.declares? = some d

theorem mem_declaredAt (depth : Nat) (stmts : List StmtId) :
    d ∈ p.declaredAt depth stmts ↔ ∃ s ∈ stmts, ∃ steps < depth, p.DeclaredIn d steps s := by
  induction depth generalizing stmts with
  | zero => simp [declaredAt]
  | succ depth ih =>
    simp only [declaredAt, List.mem_flatMap]
    refine exists_congr fun s => and_congr_right fun _ => ?_
    have into : (∃ s', p.StepsInto s s' ∧ ∃ steps < depth, p.DeclaredIn d steps s') ↔
        ∃ block ∈ (p.stmt s).kind.blocks, d ∈ p.declaredAt depth block := by
      constructor
      · rintro ⟨s', ⟨block, isBlock, isStmt⟩, declared⟩
        exact ⟨block, isBlock, (ih block).mpr ⟨s', isStmt, declared⟩⟩
      · rintro ⟨block, isBlock, declared⟩
        obtain ⟨s', isStmt, declared⟩ := (ih block).mp declared
        exact ⟨s', ⟨block, isBlock, isStmt⟩, declared⟩
    rw [LeadsIn.exists_lt_succ, into]
    cases (p.stmt s).kind <;> simp [StmtKind.declares?, StmtKind.blocks, eq_comm]

/-- Statements with a declaration in some block, and the steps to it. -/
theorem nests_iff_declaredIn {stmts : List StmtId} :
    (∃ inner, p.Nests stmts inner ∧ ∃ s ∈ inner, (p.stmt s).kind.declares? = some d) ↔
      ∃ s ∈ stmts, ∃ steps, p.DeclaredIn d steps s := by
  constructor
  · rintro ⟨inner, nests, declared⟩
    induction nests with
    | refl block =>
      obtain ⟨s, isStmt, declared⟩ := declared
      exact ⟨s, isStmt, 0, declared⟩
    | inside isStmt isBlock nests ih =>
      obtain ⟨s', isStmt', steps, declared⟩ := ih declared
      exact ⟨_, isStmt, steps + 1, .inr ⟨s', ⟨_, isBlock, isStmt'⟩, declared⟩⟩
  · rintro ⟨s, isStmt, steps, declared⟩
    induction steps generalizing s stmts with
    | zero => exact ⟨stmts, .refl stmts, s, isStmt, declared⟩
    | succ steps ih =>
      rcases declared with here | ⟨s', ⟨block, isBlock, isStmt'⟩, declared⟩
      · exact ⟨stmts, .refl stmts, s, isStmt, here⟩
      · obtain ⟨inner, nests, declared⟩ := ih s' isStmt' declared
        exact ⟨inner, .inside isStmt isBlock nests, declared⟩

/-- What statements declare is what some block in them declares. -/
theorem mem_declared (stmts : List StmtId) : d ∈ p.declared stmts ↔
    ∃ inner, p.Nests stmts inner ∧ ∃ s ∈ inner, (p.stmt s).kind.declares? = some d := by
  have among (s : StmtId) (leads : (p.stmt s).kind.declares? = some d ∨ ∃ s', p.StepsInto s s') :
      s ∈ (List.range p.stmts.size).map StmtId.mk := by
    by_cases inside : s.raw < p.stmts.size
    · exact List.mem_map.mpr ⟨s.raw, List.mem_range.mpr inside, rfl⟩
    · have isDefault : p.stmt s = default := by simp [stmt, Array.getD, inside]
      simp [isDefault, default, StepsInto, StmtKind.declares?, StmtKind.blocks] at leads
  rw [declared, mem_declaredAt, nests_iff_declaredIn]
  refine exists_congr fun s => and_congr_right fun _ => ?_
  constructor
  · rintro ⟨steps, _, declared⟩
    exact ⟨steps, declared⟩
  · intro declared
    obtain ⟨steps, lt, declared⟩ := LeadsIn.bounded _ among declared
    rw [List.length_map, List.length_range] at lt
    exact ⟨steps, by omega, declared⟩

theorem mem_declNames {decls : List DeclId} :
    n ∈ p.declNames decls ↔ ∃ d ∈ decls, (p.decl d).toOption.map (·.name) = some n := by
  simp [declNames]

/-- The names that are taken for a function: of its parameters, and of the declarations in its
blocks. -/
theorem mem_taken : n ∈ (Binder.params d).taken p ↔
    n ∈ (Binder.params d).names p ∨ p.DeclaresInside d n := by
  cases known : p.function d with
  | error e => simp [Binder.taken, Binder.names, DeclaresInside, known, Except.toOption]
  | ok f =>
    have names : (Binder.params d).names p = p.declNames f.params := by
      simp [Binder.names, known, Except.toOption]
    have taken : (Binder.params d).taken p = p.declNames (f.params ++ p.declaredIn f.body) := by
      simp [Binder.taken, known, Except.toOption]
    have declares : p.DeclaresInside d n ↔ n ∈ p.declNames (p.declaredIn f.body) := by
      rw [mem_declNames]
      constructor
      · rintro ⟨f', outer, inner, known', isBody, nests, isName⟩
        cases known.symm.trans known'
        obtain ⟨decl, isDecl, isName⟩ := mem_declNames.mp isName
        refine ⟨decl, ?_, isName⟩
        simp only [declaredIn, isBody, mem_declared]
        exact ⟨inner, nests, by simpa using isDecl⟩
      · rintro ⟨decl, isDecl, isName⟩
        unfold declaredIn at isDecl
        split at isDecl
        · rename_i outer isBody
          obtain ⟨inner, nests, s, isStmt, isDecl⟩ := (mem_declared outer).mp isDecl
          refine ⟨f, outer, inner, known, isBody, nests, mem_declNames.mpr ⟨decl, ?_, isName⟩⟩
          exact List.mem_filterMap.mpr ⟨s, isStmt, isDecl⟩
        · cases isDecl
    rw [names, taken, declares]
    simp [declNames]

theorem stmt_not_mem_exprParts (kind : ExprKind) (s : StmtId) : .stmt s ∉ p.exprParts kind := by
  have callee (e : ExprId) (target : Option DeclId) : .stmt s ∉ p.calleeParts e target := by
    unfold calleeParts
    split <;> simp
  cases kind <;> simp [exprParts, callee]

theorem stmtParts_cases {kind : StmtKind} {part : Node} {binders : List Binder}
    (isPart : (binders, part) ∈ stmtParts kind) :
    (binders = [] ∧ ∀ s, part ≠ .stmt s) ∨ ∃ s block, part = .stmt s ∧ binders = [.block block] ∧
      block ∈ kind.blocks ∧ s ∈ block := by
  have inBlock {block : List StmtId} (isPart : (binders, part) ∈ blockParts block) :
      ∃ s, part = .stmt s ∧ binders = [.block block] ∧ s ∈ block := by
    obtain ⟨s, isStmt, same⟩ := List.mem_map.mp isPart
    cases same
    exact ⟨s, rfl, rfl, isStmt⟩
  cases kind <;> simp only [stmtParts, StmtKind.blocks, List.mem_map, List.mem_cons,
    List.mem_append, Prod.mk.injEq] at isPart ⊢ <;> grind

theorem memberParts_plain {m : DeclId} {d : Decl} {part : Part} (isPart : part ∈ memberParts m d) :
    part.1 = [] ∧ ∀ s, part.2 ≠ .stmt s := by
  unfold memberParts at isPart
  split at isPart
  · cases List.mem_singleton.mp isPart
    simp
  · cases List.mem_singleton.mp isPart
    simp
  · cases isPart

/-- A part that is a statement stands in a block of its node, and no other part opens a block. -/
theorem parts_cases {node part : Node} {binders : List Binder}
    (isPart : (binders, part) ∈ p.parts node) :
    ((∀ block, .block block ∉ binders) ∧ ∀ s, part ≠ .stmt s) ∨
    (∃ s s' block, node = .stmt s ∧ part = .stmt s' ∧ binders = [.block block] ∧
      block ∈ (p.stmt s).kind.blocks ∧ s' ∈ block) ∨
    ∃ g f s' block, node = .function g ∧ part = .stmt s' ∧ binders = [.params g, .block block] ∧
      p.function g = .ok f ∧ f.body = some (.block block) ∧ s' ∈ block := by
  cases node with
  | expr e =>
    obtain ⟨part, isPart, same⟩ := List.mem_map.mp isPart
    cases same
    refine .inl ⟨by simp, ?_⟩
    rintro s rfl
    exact stmt_not_mem_exprParts _ s isPart
  | stmt s =>
    rcases stmtParts_cases isPart with ⟨rfl, noStmt⟩ | ⟨s', block, isStmt, isBinder,
      isBlock, inside⟩
    · exact .inl ⟨by simp, noStmt⟩
    · exact .inr (.inl ⟨s, s', block, rfl, isStmt, isBinder, isBlock, inside⟩)
  | function d =>
    cases known : p.function d with
    | error e => simp [parts, functionParts, known, Except.toOption] at isPart
    | ok f =>
      simp only [parts, functionParts, known, Except.toOption, Option.elim_some, List.mem_append,
        List.mem_map] at isPart
      rcases isPart with ⟨e, _, same⟩ | isPart
      · cases same
        exact .inl ⟨by simp, by simp⟩
      · unfold bodyParts at isPart
        split at isPart
        · rename_i stmts isBody
          obtain ⟨s, isStmt, same⟩ := List.mem_map.mp isPart
          cases same
          exact .inr (.inr ⟨d, f, s, stmts, rfl, rfl, rfl, known, isBody, isStmt⟩)
        · cases List.mem_singleton.mp isPart
          exact .inl ⟨by simp, by simp⟩
        · cases isPart
  | classDecl d =>
    cases known : p.classDecl d with
    | error e => simp [parts, classParts, known, Except.toOption] at isPart
    | ok c =>
      simp only [parts, classParts, known, Except.toOption, Option.elim_some, List.mem_flatMap]
        at isPart
      obtain ⟨m, _, isPart⟩ := isPart
      cases isDecl : p.decl m with
      | error e => simp [isDecl] at isPart
      | ok decl =>
        obtain ⟨rfl, noStmt⟩ := memberParts_plain (by simpa [isDecl] using isPart)
        exact .inl ⟨by simp, noStmt⟩

/-- Every block around a mention is a block of a function that is around it as well, or of the
statement in which it is. -/
theorem Mentions.enclosed {node : Node} {trail : List Binder} (made : p.Mentions r node trail)
    {block : List StmtId} (around : .block block ∈ trail) :
    (∃ g f outer, .params g ∈ trail ∧ p.function g = .ok f ∧ f.body = some (.block outer) ∧
      p.Nests outer block) ∨
    ∃ s outer, node = .stmt s ∧ outer ∈ (p.stmt s).kind.blocks ∧ p.Nests outer block := by
  induction made with
  | here made => cases around
  | @inside node part binders trail isPart made ih =>
    -- a block of a function that is around the mention in the part is around it in the node
    have kept (h : ∃ g f outer, .params g ∈ trail ∧ p.function g = .ok f ∧
        f.body = some (.block outer) ∧ p.Nests outer block) :
        ∃ g f outer, .params g ∈ binders ++ trail ∧ p.function g = .ok f ∧
          f.body = some (.block outer) ∧ p.Nests outer block := by
      obtain ⟨g, f, outer, inside, known⟩ := h
      exact ⟨g, f, outer, List.mem_append_right _ inside, known⟩
    rcases parts_cases isPart with ⟨noBlock, noStmt⟩ | ⟨s, s', outer, rfl, rfl, rfl,
      isBlock, isStmt⟩ |
      ⟨g, f, s', outer, rfl, rfl, rfl, known, isBody, isStmt⟩
    · have around := (List.mem_append.mp around).resolve_left (noBlock block)
      rcases ih around with enclosed | ⟨s, _, isNode, _⟩
      · exact .inl (kept enclosed)
      · exact absurd isNode (noStmt s)
    · rcases List.mem_append.mp around with here | around
      · obtain rfl : block = outer := by simpa using here
        exact .inr ⟨s, block, rfl, isBlock, .refl block⟩
      · rcases ih around with enclosed | ⟨_, inner, isNode, isInner, nests⟩
        · exact .inl (kept enclosed)
        · cases isNode
          exact .inr ⟨s, outer, rfl, isBlock, .inside isStmt isInner nests⟩
    · left
      rcases List.mem_append.mp around with here | around
      · obtain rfl : block = outer := by simpa using here
        exact ⟨g, f, block, by simp, known, isBody, .refl block⟩
      · rcases ih around with enclosed | ⟨_, inner, isNode, isInner, nests⟩
        · exact kept enclosed
        · cases isNode
          exact ⟨g, f, outer, by simp, known, isBody, .inside isStmt isInner nests⟩

/-- If all blocks around are blocks of functions around, a name is taken as bound if something
around binds it, or if a block of a function around declares it. -/
theorem not_taken_iff {trail : List Binder} (enclosed : ∀ block, .block block ∈ trail →
      ∃ g f outer, .params g ∈ trail ∧ p.function g = .ok f ∧ f.body = some (.block outer) ∧
        p.Nests outer block) :
    (∀ b ∈ trail, n ∉ b.taken p) ↔
      (∀ b ∈ trail, n ∉ b.names p) ∧ ∀ g, .params g ∈ trail → ¬ p.DeclaresInside g n := by
  constructor
  · intro free
    have params (g : DeclId) (around : .params g ∈ trail) := mt mem_taken.mpr (free _ around)
    refine ⟨fun b around isName => ?_, fun g around inside => params g around (.inr inside)⟩
    cases b with
    | params g => exact params g around (.inl isName)
    | block block =>
      obtain ⟨g, f, outer, aroundToo, known, isBody, nests⟩ := enclosed block around
      exact params g aroundToo (.inr ⟨f, outer, block, known, isBody, nests, isName⟩)
  · rintro ⟨free, aside⟩ b around isTaken
    cases b with
    | params g => exact (mem_taken.mp isTaken).elim (free _ around) (aside g around)
    | block block => cases isTaken

/-- A mention in an expression has only blocks of functions in it around. -/
theorem Mentions.free_iff {e : ExprId} {trail : List Binder} (made : p.Mentions r (.expr e) trail) :
    (∀ b ∈ trail, n ∉ b.taken p) ↔
      (∀ b ∈ trail, n ∉ b.names p) ∧ ∀ g, .params g ∈ trail → ¬ p.DeclaresInside g n :=
  not_taken_iff fun _ around => (made.enclosed around).resolve_right (by simp)

/-- Where a function mentions a name, it is taken as bound if something around binds it, or if a
block of a function around declares it. -/
theorem MentionedBy.free_iff {trail : List Binder} (made : p.MentionedBy r d trail) :
    (∀ b ∈ trail, n ∉ b.taken p) ↔
      (∀ b ∈ trail, n ∉ b.names p) ∧ ∀ g, .params g ∈ trail → ¬ p.DeclaresInside g n := by
  -- both kinds of mention begin in no statement
  refine not_taken_iff fun block around => ?_
  cases made with
  | own made => exact (made.enclosed around).resolve_right (by simp)
  | initializer _ _ _ _ made =>
    have around := (List.mem_cons.mp around).resolve_left (by simp)
    obtain ⟨g, f, outer, inside, known⟩ := (made.enclosed around).resolve_right (by simp)
    exact ⟨g, f, outer, List.mem_cons_of_mem _ inside, known⟩

end Blocks

/-! ## Bodies -/

section Bodies

variable {p : Program} {r : Reference} {n : Name} {d : DeclId} {f : FunctionDecl}

theorem mentions_function :
    (∃ trail, p.Mentions r (.function d) trail ∧ ∀ b ∈ trail, n ∉ b.taken p) ↔
      p.SomePart n (fun node => ∃ trail, p.Mentions r node trail ∧ ∀ b ∈ trail, n ∉ b.taken p)
        (p.functionParts d) := by
  constructor
  · rintro ⟨_, made, free⟩
    cases made with
    | here made => cases made
    | inside isPart made =>
      exact ⟨_, isPart, fun b inside => free b (List.mem_append_left _ inside), _, made,
        fun b inside => free b (List.mem_append_right _ inside)⟩
  · rintro ⟨⟨binders, part⟩, isPart, free, trail, made, free'⟩
    refine ⟨binders ++ trail, .inside isPart made, fun b inside => ?_⟩
    exact (List.mem_append.mp inside).elim (free b) (free' b)

/-- A function's own parts: what is found in them is what the function mentions. -/
theorem ownRefs_collects (isName : r.name? = some n) (known : p.function d = .ok f) :
    Collects (p.ownRefs (p.refs ⟨(Binder.params d).taken p, true⟩) f) r
      (∃ trail, p.MentionedBy r d trail ∧ ∀ b ∈ trail, n ∉ b.taken p) := by
  have each := refs_collects (p := p) isName
  intro refs isFound
  obtain ⟨defaults, areDefaults, isFound⟩ := exists_of_bind_ok isFound
  obtain ⟨values, body, isBody, rfl, inValues⟩ : ∃ values body,
      bodyRefs (p.refs ⟨(Binder.params d).taken p, true⟩) f.body = .ok body ∧
      refs = defaults ++ values ++ body ∧
      (r ∈ values ↔ ∃ cls, f.kind = .constructor ∧ f.owner = some cls ∧
        n ∉ (Binder.params d).taken p ∧ ∃ e ∈ p.initializers cls, ∃ trail,
          p.Mentions r (.expr e) trail ∧ ∀ b ∈ trail, n ∉ b.taken p) := by
    dsimp only at isFound
    split at isFound
    · rename_i cls kind owner
      obtain ⟨values, areValues, isFound⟩ := exists_of_bind_ok isFound
      obtain ⟨body, isBody, isFound⟩ := exists_of_bind_ok isFound
      cases isFound
      refine ⟨values, body, isBody, rfl, ?_⟩
      rw [initializerRefs_collects each cls values areValues]
      simp [kind, owner]
    · rename_i other
      obtain ⟨_, none, isFound⟩ := exists_of_bind_ok isFound
      cases none
      obtain ⟨body, isBody, isFound⟩ := exists_of_bind_ok isFound
      cases isFound
      refine ⟨[], body, isBody, by simp, iff_of_false (by simp) ?_⟩
      rintro ⟨cls, kind, owner, _⟩
      exact other cls kind owner
  have inParts : r ∈ defaults ∨ r ∈ body ↔
      ∃ trail, p.Mentions r (.function d) trail ∧ ∀ b ∈ trail, n ∉ b.taken p := by
    rw [mentions_function, somePart_function known, and_or_left,
      defaultRefs_collects each f.params defaults areDefaults,
      bodyRefs_collects each d f.body body isBody]
  rw [List.mem_append, List.mem_append, or_right_comm, inParts, inValues]
  constructor
  · rintro (⟨trail, made, free⟩ | ⟨cls, kind, owner, free, e, isValue, trail, made, free'⟩)
    · exact ⟨trail, .own made, free⟩
    · exact ⟨_, .initializer known kind owner isValue made, List.forall_mem_cons.mpr ⟨free, free'⟩⟩
  · rintro ⟨trail, made, free⟩
    cases made with
    | own made => exact .inl ⟨trail, made, free⟩
    | initializer isFunction kind owner isValue made =>
      cases known.symm.trans isFunction
      obtain ⟨free, free'⟩ := List.forall_mem_cons.mp free
      exact .inr ⟨_, kind, owner, free, _, isValue, _, made, free'⟩

theorem nodup_eraseDups {α : Type} [DecidableEq α] (as : List α) : as.eraseDups.Nodup := by
  cases as with
  | nil => simp
  | cons a rest =>
    rw [List.eraseDups_cons, List.nodup_cons]
    exact ⟨by simp, nodup_eraseDups _⟩
termination_by as.length
decreasing_by
  have := List.length_filter_le (fun b => !b == a) rest
  rw [List.length_cons]
  omega

end Bodies

/-! ## Programs whose bodies can be walked -/

/-- The declarations that an expression refers to are there. -/
def linksExpr (p : Program) : ExprKind → Bool
  | .construct cls _ => (p.decl cls).isOk
  | .function d => (p.function d).isOk
  | _ => true

def linksStmt (p : Program) : StmtKind → Bool
  | .bind d _ => (p.decl d).isOk
  | .function d => (p.function d).isOk
  | .classDecl d => (p.classDecl d).isOk
  | _ => true

def linksDecl (p : Program) : DeclKind → Bool
  | .function f =>
    (f.params.all fun q => (p.param q).isOk) && f.owner.all fun c => (p.classDecl c).isOk
  | .classDecl c => c.members.all fun m => (p.decl m).isOk
  | _ => true

/-- All declarations that a program refers to are there, and of the right kind. -/
structure Linked (p : Program) : Prop where
  exprs : ∀ e ∈ p.exprs.toList, p.linksExpr e.kind = true
  stmts : ∀ s ∈ p.stmts.toList, p.linksStmt s.kind = true
  decls : ∀ d ∈ p.decls.toList, p.linksDecl d.kind = true

instance (p : Program) : Decidable p.Linked :=
  decidable_of_iff ((∀ e ∈ p.exprs.toList, p.linksExpr e.kind = true) ∧
    (∀ s ∈ p.stmts.toList, p.linksStmt s.kind = true) ∧
    ∀ d ∈ p.decls.toList, p.linksDecl d.kind = true)
    ⟨fun ⟨exprs, stmts, decls⟩ => ⟨exprs, stmts, decls⟩, fun h => ⟨h.exprs, h.stmts, h.decls⟩⟩

/-- A node can be walked if the function or class is there. -/
def Resolved (p : Program) : Node → Prop
  | .function d => (p.function d).isOk = true
  | .classDecl d => (p.classDecl d).isOk = true
  | _ => True

section Linked

variable {p : Program} {α β : Type}

theorem isOk_iff {x : Except ProgramError α} : x.isOk = true ↔ ∃ a, x = .ok a := by
  cases x <;> simp [Except.isOk, Except.toBool]

theorem isOk_bind {x : Except ProgramError α} {k : α → Except ProgramError β}
    (first : x.isOk = true)
    (rest : ∀ a, x = .ok a → (k a).isOk = true) : (x >>= k).isOk = true := by
  obtain ⟨a, rfl⟩ := isOk_iff.mp first
  exact rest a rfl

theorem isOk_mapM {f : α → Except ProgramError β} {as : List α}
    (each : ∀ a ∈ as, (f a).isOk = true) :
    (as.mapM f).isOk = true := by
  induction as with
  | nil => rfl
  | cons a rest ih =>
    rw [List.mapM_cons]
    exact isOk_bind (each a (by simp)) fun _ _ =>
      isOk_bind (ih fun b inside => each b (by simp [inside])) fun _ _ => rfl

theorem isOk_inOrder {walk : α → Found} {parts : List α}
    (each : ∀ a ∈ parts, (walk a).isOk = true) :
    (Found.inOrder walk parts).isOk = true :=
  isOk_bind (isOk_mapM each) fun _ _ => rfl

theorem isOk_append {found found' : Found} (first : found.isOk = true)
    (second : found'.isOk = true) :
    (do return (← found) ++ (← found') : Found).isOk = true :=
  isOk_bind first fun _ _ => isOk_bind second fun _ _ => rfl

theorem Linked.expr (linked : p.Linked) (e : ExprId) : p.linksExpr (p.expr e).kind = true := by
  by_cases inside : e.raw < p.exprs.size
  · have there : p.expr e ∈ p.exprs.toList := by
      simp [Program.expr, Array.getD, inside]
    exact linked.exprs _ there
  · simp [Program.expr, Array.getD, inside, default, linksExpr]

theorem Linked.stmt (linked : p.Linked) (s : StmtId) : p.linksStmt (p.stmt s).kind = true := by
  by_cases inside : s.raw < p.stmts.size
  · have there : p.stmt s ∈ p.stmts.toList := by
      simp [Program.stmt, Array.getD, inside]
    exact linked.stmts _ there
  · simp [Program.stmt, Array.getD, inside, default, linksStmt]

theorem Linked.decl (linked : p.Linked) {d : DeclId} {decl : Decl} (known : p.decl d = .ok decl) :
    p.linksDecl decl.kind = true := by
  unfold Program.decl at known
  split at known
  · rename_i there
    cases known
    exact linked.decls _ (Array.mem_toList_iff.mpr (Array.mem_of_getElem? there))
  · cases known

theorem Linked.function (linked : p.Linked) {d : DeclId} {f : FunctionDecl}
    (known : p.function d = .ok f) : (∀ q ∈ f.params, (p.param q).isOk = true) ∧
      ∀ cls, f.owner = some cls → (p.classDecl cls).isOk = true := by
  obtain ⟨decl, isDecl, kind⟩ := decl_of_function known
  have links := linked.decl isDecl
  rw [kind, linksDecl, Bool.and_eq_true, List.all_eq_true] at links
  refine ⟨links.1, fun cls owner => ?_⟩
  simpa [owner] using links.2

theorem Linked.members (linked : p.Linked) {d : DeclId} {c : ClassDecl}
    (known : p.classDecl d = .ok c) : ∀ m ∈ c.members, (p.decl m).isOk = true := by
  obtain ⟨decl, isDecl, kind⟩ := decl_of_classDecl known
  have links := linked.decl isDecl
  rwa [kind, linksDecl, List.all_eq_true] at links

theorem isOk_decl_of_param {q : DeclId} (h : (p.param q).isOk = true) : (p.decl q).isOk = true := by
  obtain ⟨d, known⟩ := isOk_iff.mp h
  obtain ⟨decl, isDecl, _⟩ := exists_of_bind_ok known
  exact isOk_iff.mpr ⟨decl, isDecl⟩

theorem Linked.declared (linked : p.Linked) {s : StmtId} {d : DeclId}
    (declares : (p.stmt s).kind.declares? = some d) : (p.decl d).isOk = true := by
  have links := linked.stmt s
  cases kind : (p.stmt s).kind with
  | bind d' _ =>
    obtain rfl : d = d' := by simpa [kind, StmtKind.declares?] using declares.symm
    simpa [kind, linksStmt] using links
  | function d' =>
    obtain rfl : d = d' := by simpa [kind, StmtKind.declares?] using declares.symm
    rw [kind] at links
    obtain ⟨f, known⟩ := isOk_iff.mp links
    obtain ⟨decl, isDecl, _⟩ := decl_of_function known
    exact isOk_iff.mpr ⟨decl, isDecl⟩
  | classDecl d' =>
    obtain rfl : d = d' := by simpa [kind, StmtKind.declares?] using declares.symm
    rw [kind] at links
    obtain ⟨c, known⟩ := isOk_iff.mp links
    obtain ⟨decl, isDecl, _⟩ := decl_of_classDecl known
    exact isOk_iff.mpr ⟨decl, isDecl⟩
  | _ => simp [kind, StmtKind.declares?] at declares

/-- The names that a function binds can be told. -/
theorem Linked.namesOf (linked : p.Linked) {d : DeclId} {f : FunctionDecl}
    (known : p.function d = .ok f) : (p.namesOf (f.params ++ p.declaredIn f.body)).isOk = true := by
  refine isOk_mapM fun q inside => isOk_bind ?_ fun _ _ => rfl
  rcases List.mem_append.mp inside with isParam | isDeclared
  · exact isOk_decl_of_param ((linked.function known).1 q isParam)
  · unfold declaredIn at isDeclared
    split at isDeclared
    · obtain ⟨inner, _, s, _, declares⟩ := (mem_declared _).mp isDeclared
      exact linked.declared declares
    · cases isDeclared

section Walk

variable {walk : Node → Found}

theorem isOk_defaultRefs {params : List DeclId} (links : ∀ q ∈ params, (p.param q).isOk = true)
    (each : ∀ e, (walk (.expr e)).isOk = true) : (p.defaultRefs walk params).isOk = true := by
  refine isOk_inOrder fun q inside => isOk_bind (links q inside) fun d _ => ?_
  split
  · exact each _
  · rfl

theorem isOk_bodyRefs (exprs : ∀ e, (walk (.expr e)).isOk = true)
    (stmts : ∀ s, (walk (.stmt s)).isOk = true) (body : Option Body) :
    (bodyRefs walk body).isOk = true := by
  unfold bodyRefs
  split
  · exact isOk_inOrder fun s _ => stmts s
  · exact exprs _
  · rfl

theorem isOk_initializerRefs (linked : p.Linked) {cls : DeclId}
    (known : (p.classDecl cls).isOk = true) (each : ∀ e, (walk (.expr e)).isOk = true) :
    (p.initializerRefs walk cls).isOk = true := by
  refine isOk_bind known fun c isClass => isOk_inOrder fun m inside =>
    isOk_bind (linked.members isClass m inside) fun d _ => ?_
  split
  · split
    · rfl
    · exact each _
  · rfl

theorem isOk_exprRefs {a : Around} (each : ∀ node, p.Resolved node → (walk node).isOk = true)
    {kind : ExprKind} (links : p.linksExpr kind = true) : (p.exprRefs walk a kind).isOk = true := by
  have exprs (es : List ExprId) : (Found.inOrder (fun e => walk (.expr e)) es).isOk = true :=
    isOk_inOrder fun e _ => each _ trivial
  cases kind with
  | property object m =>
    rw [exprRefs, objectRefs]
    split
    · rfl
    · rfl
    · exact each _ trivial
  | call callee args target =>
    refine isOk_append ?_ (exprs args)
    unfold calleeRefs
    split
    · rfl
    · rfl
    · exact each _ trivial
  | construct cls args => exact isOk_bind links fun _ _ => isOk_bind (exprs args) fun _ _ => rfl
  | function d => exact each _ links
  | object fields => exact isOk_inOrder fun _ _ => each _ trivial
  | assign target value => exact exprs [target, value]
  | binary op lhs rhs => exact exprs [lhs, rhs]
  | unary op operand => exact each _ trivial
  | convert e ty => exact each _ trivial
  | _ => rfl

theorem isOk_stmtRefs (each : ∀ node, p.Resolved node → (walk node).isOk = true)
    {kind : StmtKind} (links : p.linksStmt kind = true) : (stmtRefs walk kind).isOk = true := by
  have exprs (es : List ExprId) : (Found.inOrder (fun e => walk (.expr e)) es).isOk = true :=
    isOk_inOrder fun e _ => each _ trivial
  have stmts (ss : List StmtId) : (Found.inOrder (fun s => walk (.stmt s)) ss).isOk = true :=
    isOk_inOrder fun s _ => each _ trivial
  cases kind with
  | bind d value => exact exprs value.toList
  | expr e => exact each _ trivial
  | ret value => exact exprs value.toList
  | branch cond thenBranch elseBranch =>
    exact isOk_append (each _ trivial) (stmts (thenBranch ++ elseBranch))
  | loop cond body => exact isOk_append (each _ trivial) (stmts body)
  | block body => exact stmts body
  | function d => exact each _ links
  | classDecl d => exact each _ links

end Walk

section Scopes

variable {walk : Around → Node → Found} {d : DeclId}

theorem isOk_functionRefs (linked : p.Linked) (a : Around)
    (each : ∀ a node, p.Resolved node → (walk a node).isOk = true)
    (known : (p.function d).isOk = true) :
    (p.functionRefs walk a d).isOk = true := by
  refine isOk_bind known fun f isFunction => isOk_bind (linked.namesOf isFunction) fun names _ => ?_
  exact isOk_append (isOk_defaultRefs (linked.function isFunction).1 fun e => each _ _ trivial)
    (isOk_bodyRefs (fun e => each _ _ trivial) (fun s => each _ _ trivial) f.body)

theorem isOk_classRefs (linked : p.Linked) (a : Around)
    (each : ∀ a node, p.Resolved node → (walk a node).isOk = true)
    (known : (p.classDecl d).isOk = true) : (p.classRefs walk a d).isOk = true := by
  refine isOk_bind known fun c isClass => isOk_inOrder fun m inside =>
    isOk_bind (linked.members isClass m inside) fun decl isDecl => ?_
  split
  · rename_i f kind
    refine each a _ (isOk_iff.mpr ⟨f, ?_⟩)
    simp [Program.function, isDecl, kind, Bind.bind, Except.bind, Pure.pure, Except.pure]
  · exact each _ _ trivial
  · rfl

end Scopes

/-- Wherever a walk begins, it comes to an end without an error. -/
theorem Linked.refsAt (linked : p.Linked) (depth : Nat) (a : Around) {node : Node}
    (resolved : p.Resolved node) : (p.refsAt depth a node).isOk = true := by
  induction depth generalizing a node with
  | zero => rfl
  | succ depth ih =>
    cases node with
    | expr e => exact isOk_exprRefs (fun _ => ih a) (linked.expr e)
    | stmt s => exact isOk_stmtRefs (fun _ => ih a) (linked.stmt s)
    | function d => exact isOk_functionRefs linked a (fun a _ => ih a) resolved
    | classDecl d => exact isOk_classRefs linked a (fun a _ => ih a) resolved

/-- Every function of a linked program can be walked. -/
theorem Linked.freeNames (linked : p.Linked) {d : DeclId} {f : FunctionDecl}
    (known : p.function d = .ok f) : (p.freeNames (.function d)).isOk = true := by
  have exprs (locals : List Name) (e : ExprId) :
      (p.refs ⟨locals, true⟩ (.expr e)).isOk = true := linked.refsAt _ _ trivial
  have body (locals : List Name) : (bodyRefs (p.refs ⟨locals, true⟩) f.body).isOk = true :=
    isOk_bodyRefs (exprs locals) (fun s => linked.refsAt _ _ trivial) f.body
  rw [Program.freeNames, known]
  refine isOk_bind rfl fun f' same => ?_
  cases same
  refine isOk_bind (linked.namesOf known) fun locals _ => isOk_bind ?_ fun _ _ => rfl
  refine isOk_bind (isOk_defaultRefs (linked.function known).1 (exprs locals)) fun _ _ => ?_
  dsimp only
  split
  · rename_i cls _ owner
    exact isOk_bind (isOk_initializerRefs linked
      ((linked.function known).2 cls owner) (exprs locals))
      fun _ _ => isOk_bind (body locals) fun _ _ => rfl
  · exact isOk_bind rfl fun _ _ => isOk_bind (body locals) fun _ _ => rfl

end Linked

/-! ## What is reported -/

/-- What the walk of a function reports by name. It reports nothing twice, and a reference exactly
if the function makes it where no parameters and no block around bind the name, and no block of a
function around declares it. If all declarations are there, the walk succeeds. -/
theorem freeNames_reported (p : Program) {d : DeclId} {f : FunctionDecl}
    (known : p.function d = .ok f) :
    (p.Linked → ∃ free, p.freeNames (.function d) = .ok free) ∧
    ∀ free, p.freeNames (.function d) = .ok free → free.refs.Nodup ∧
      ∀ r n, r.name? = some n → (r ∈ free.refs ↔ ∃ trail, p.MentionedBy r d trail ∧
        (∀ b ∈ trail, n ∉ b.names p) ∧ ∀ g, .params g ∈ trail → ¬ p.DeclaresInside g n) := by
  refine ⟨fun linked => isOk_iff.mp (linked.freeNames known), fun free found => ?_⟩
  rw [Program.freeNames, known] at found
  obtain ⟨_, same, found⟩ := exists_of_bind_ok found
  cases same
  obtain ⟨locals, areNames, found⟩ := exists_of_bind_ok found
  obtain ⟨refs, areRefs, found⟩ := exists_of_bind_ok found
  cases found
  have taken : locals = (Binder.params d).taken p := by
    rw [declNames_of_namesOf areNames]
    simp [Binder.taken, known, Except.toOption]
  subst taken
  refine ⟨nodup_eraseDups refs, fun r n isName => ?_⟩
  rw [List.mem_eraseDups, ownRefs_collects isName known refs areRefs]
  exact exists_congr fun trail => and_congr_right fun made => made.free_iff

/-- A function with a variable, and a function inside it with a block that has a variable of the
same name. After the block the inner function uses the outer variable, and another name. -/
@[irreducible] def blockBeside : Program := (Id.run <| StateT.run (do
  let (own, _) ← Construction.bind "x" none (some (← Construction.expr (.bool true)))
  let (beside, _) ← Construction.bind "x" none (some (← Construction.expr (.bool false)))
  let block ← Construction.stmt (.block [beside])
  let first ← Construction.stmt (.expr (← Construction.ident "x"))
  let second ← Construction.stmt (.expr (← Construction.ident "y"))
  let inner ← Construction.function "inner" [] [] none [block, first, second]
  let outer ← Construction.function "outer" [] [] none [own, ← Construction.stmt (.function inner)]
  Construction.pushEntry (← Construction.stmt (.function outer)) : Building Unit) {}).2.program

theorem blockBeside_inner :
    blockBeside.freeNames (.function ⟨2⟩) = .ok ⟨[⟨1⟩], [⟨1⟩], [.name ⟨2⟩]⟩ := by
  decide +kernel

/-- The other name is reported, and is mentioned where it is free. -/
theorem freeNames_reported_inner : blockBeside.Linked ∧
    ∃ free, blockBeside.freeNames (.function ⟨2⟩) = .ok free ∧ free.refs.Nodup ∧
      ∃ trail, blockBeside.MentionedBy (.name ⟨2⟩) ⟨2⟩ trail ∧
        (∀ b ∈ trail, ⟨2⟩ ∉ b.names blockBeside) ∧
        ∀ g, .params g ∈ trail → ¬ blockBeside.DeclaresInside g ⟨2⟩ := by
  have linked : blockBeside.Linked := by decide +kernel
  obtain ⟨f, known⟩ : ∃ f, blockBeside.function ⟨2⟩ = .ok f := isOk_iff.mp (by decide +kernel)
  obtain ⟨succeeds, reports⟩ := freeNames_reported blockBeside known
  obtain ⟨free, found⟩ := succeeds linked
  obtain ⟨once, exactly⟩ := reports free found
  cases found.symm.trans blockBeside_inner
  exact ⟨linked, _, found, once, (exactly (.name ⟨2⟩) ⟨2⟩ rfl).mp (by simp)⟩

/-- The outer variable is used where nothing inside binds its name, and is not reported: a block
beside the use declares the name. -/
theorem block_hides_name : ∃ free trail, blockBeside.freeNames (.function ⟨2⟩) = .ok free ∧
    blockBeside.MentionedBy (.name ⟨1⟩) ⟨2⟩ trail ∧ (∀ b ∈ trail, ⟨1⟩ ∉ b.names blockBeside) ∧
    .name ⟨1⟩ ∉ free.refs := by
  have body : ([.params ⟨2⟩, .block [⟨2⟩, ⟨3⟩, ⟨4⟩]], .stmt ⟨3⟩) ∈
      blockBeside.parts (.function ⟨2⟩) := by decide +kernel
  have use : ([], .expr ⟨2⟩) ∈ blockBeside.parts (.stmt ⟨3⟩) := by decide +kernel
  have made : .name ⟨1⟩ ∈ blockBeside.mentions (.expr ⟨2⟩) := by decide +kernel
  refine ⟨_, _, blockBeside_inner, .own (.inside body (.inside use (.here made))), ?_, by simp⟩
  decide +kernel

end Program

end ShapeCompiler.Source
