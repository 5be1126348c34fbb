import ShapeCompiler.Proofs.EndingBodies
import ShapeCompiler.Proofs.Limits
import ShapeCompiler.Proofs.Nesting
import ShapeCompiler.Proofs.Shapes
import ShapeCompiler.Proofs.Signatures
import ShapeCompiler.Proofs.UnboundNames

/-!
# What comes to an end

* `Compile.function_again`: a body that was begun is found, and not begun again;
* `compilation_stops`: searches for captured variables, types, layouts and bodies that were begun
  come to an end, and so does the compilation of a program for which only finitely many bodies are
  asked for.

Nothing bounds how many bodies are asked for, and three things have no end though they ask for few:
the layout of a class that is a member of an intersection in it (`selfContaining_endless`), a start
value that calls the constructor of the base, and taking a class out of an intersection that has
something else under the name of the class.
-/

namespace ShapeCompiler

open Source Code

/-- From when a body was begun on, whatever asks for it finds it. -/
theorem Compile.function_again {s : Setup} {w w' : Work} {spec : Specialization}
    {c : CompiledFunction}
    (begun : w.functions.get? spec.key = some c) (later : w.Reaches s w') (l : Lowering) :
    Compile.function l spec s w' = .ok c w' := by
  have found := later.functions spec.key c begun
  have get : (MonadState.get : Compile Work) s w' = .ok w' w' := rfl
  rw [Compile.function, bind_apply, get]
  simp only [found]
  rfl

/-- What comes to an end in a compilation. The search for what a declaration captures finds the same
however deep it follows calls. If types are put together from earlier types, and no class is laid
out for its own layout, then types are lowered and classes laid out in every state, with the depth
that is allowed. A body that was begun is not begun again. What a program compiles to, or why it
fails, is the same for every limit that it ends within. If only finitely many bodies are asked for,
it ends: with expressions and statements that are put together from earlier ones, start values that
do not call the constructor of the base, and classes that are taken out of intersections as they
are, some limit is enough, and from that one on the outcome is the same. -/
theorem compilation_stops (p : Program) (founded : p.TypesFounded) (apart : p.LayoutsApart) :
    (∀ s : Survey, s.program = p → ∀ depth, s.depth ≤ depth → ∀ owner cls,
      s.gatherWithin depth owner cls = s.gather owner cls) ∧
    (∀ s : Setup, s.program = p → ∀ w, (∀ b t, Compile.Ended (Compile.infoOf b t) s w) ∧
      ∀ cls, Compile.Ended (Compile.layoutOf cls) s w) ∧
    (∀ s : Setup, s.program = p → ∀ (w w' : Work) (spec : Specialization) (c : CompiledFunction),
      w.functions.get? spec.key = some c → w.Reaches s w' → ∀ l,
      Compile.function l spec s w' = .ok c w') ∧
    (∀ r c limit limit', limit ≤ limit' →
      (∀ failure, compileUnitWithin limit p r c = .error failure → failure.cause ≠ .tooDeep) →
      compileUnitWithin limit' p r c = compileUnitWithin limit p r c) ∧
    (p.ExprsFounded → p.StmtsFounded → p.StartsPlain → ∀ r c (keys : List FunctionKey),
      (∀ limit, (Compile.endOf (Compile.entry (.ofDepth limit)) (.of p r c) .start).Confined
        (.of p r c) keys) →
      ∃ limit, (∀ failure, compileUnitWithin limit p r c = .error failure →
      failure.cause ≠ .tooDeep) ∧
        ∀ limit', limit ≤ limit' → compileUnitWithin limit' p r c =
        compileUnitWithin limit p r c) := by
  refine ⟨fun s _ depth enough owner cls => s.gatherWithin_eq enough owner cls, ?_,
    fun s _ w w' spec c begun later l => Compile.function_again begun later l,
    fun r c limit limit' le ended => compileUnitWithin_below le ended,
    fun exprs stmts plain r c keys confined => ?_⟩
  · rintro s rfl w
    exact ⟨fun b t => fun e w' ran => (Compile.infoOf_shallow founded apart b t).ended ran
      (by simp),
      fun cls => fun e w' ran => (Compile.layoutOf_shallow founded apart cls).ended ran (by simp)⟩
  · have : (Setup.of p r c).TypesEnd := ⟨founded, apart⟩
    exact compileUnit_ends exprs plain stmts confined

/-- A class with a property for an intersection that another class is a member of. -/
@[irreducible] def containing : Program := (Id.run <| StateT.run (do
  let other ← Construction.classDecl "D" none .none
  let cls ← Construction.classDecl "C" none .none
  let both ← Construction.intersectionType [← Construction.instanceType other,
    ← Construction.objectType []]
  discard <| Construction.property cls "x" both none
  Construction.pushEntry (← Construction.stmt (.classDecl cls))
  Construction.pushEntry (← Construction.stmt (.expr (← Construction.expr (.construct cls [])))) :
    Building Unit) {}).2.program

/-- The only intersection in this program has the other class as a member, and nothing is lowered
for the layout of that one. -/
theorem containing_apart : containing.LayoutsApart := by
  have parts : ∀ i < containing.types.size,
      ∀ m ∈ (containing.types.get ⟨i⟩).parts, containing.types.get m = .instanceOf ⟨0⟩ ∨
        containing.types.get m = .object [] := by
    decide +kernel
  have none : containing.propertyTypes ⟨0⟩ = [] := by decide +kernel
  have outside (t : TypeId) : ¬ containing.Inside ⟨0⟩ t := by
    intro inside
    induction inside with
    | property isProperty =>
      rw [none] at isProperty
      cases isProperty
    | part _ _ ih => exact ih
    | field _ _ _ _ ih => exact ih
    | layout _ _ _ _ _ ih => exact ih
  rintro c ⟨t, members, m, inside, isIntersection, isMember, holds⟩
  have isPart : m ∈ (containing.types.get t).parts := by rwa [isIntersection]
  cases holds with
  | «instance» isInstance =>
    rcases parts t.raw (Program.raw_lt_of_mem_parts isPart) m isPart with isOther | isObject
    · cases isInstance.symm.trans isOther
      exact outside t inside
    · cases isInstance.symm.trans isObject
  | union isUnion _ _ =>
    rcases parts t.raw (Program.raw_lt_of_mem_parts isPart) m isPart with isOther | isObject
    · cases isUnion.symm.trans isOther
    · cases isUnion.symm.trans isObject

/-- The search of a body that makes an instance of the other class. -/
def containingSearch : Survey where
  program := containing
  work := .start
  site := ⟨.empty, none, none, .root⟩
  free := ⟨[], [], [.construct ⟨0⟩]⟩

/-- The body of the constructor of the class with the property. -/
def containingBody : Specialization where
  key := ⟨.implicitConstructor ⟨1⟩, some ⟨1⟩, [], []⟩
  bindings := .root

/-- The state with this body begun. -/
def containingBegun : Work :=
  { Work.start with functions := ({} : Table _ _).insert containingBody.key ⟨⟨1⟩, ⟨0⟩, [], .void⟩ }

/-- No property in this program has a start value. -/
theorem containing_initializers (cls : DeclId) : containing.initializers cls = [] := by
  have known : ∀ n < containing.decls.size, containing.initializers ⟨n⟩ = [] := by decide +kernel
  by_cases inside : cls.raw < containing.decls.size
  · exact known cls.raw inside
  · have dangling : containing.classDecl cls = .error (.dangling cls) := by
      simp [Program.classDecl, Program.decl, inside, Bind.bind, Except.bind]
    simp [Program.initializers, dangling, Except.toOption]

/-- Within every limit at most this body is begun; three levels are enough for all of the
program. -/
theorem containing_confined (limit : Nat) :
    (Compile.endOf (Compile.entry (.ofDepth limit)) (.of containing .ambient {}) .start).Confined
      (.of containing .ambient {}) [containingBody.key] := by
  have few : ∀ limit < 4, (Compile.endOf (Compile.entry (.ofDepth limit))
    (.of containing .ambient {})
      .start).Confined (.of containing .ambient {}) [containingBody.key] := by
    decide +kernel
  rcases Nat.lt_or_ge limit 4 with isFew | enough
  · exact few limit isFew
  · have ends : (Compile.entry (.ofDepth 3)).gives (.of containing .ambient {}) .start
        fun _ => true := by
      decide +kernel
    obtain ⟨f, ran, -⟩ := Compile.of_gives ends
    have same := Compile.entry_below (Lowering.ofDepth_below (by omega : 3 ≤ limit))
      (.of containing .ambient {}) .start fun e w failed => by
        rw [ran] at failed
        cases failed
    simpa only [Compile.endOf, same] using few 3 (by omega)

/-- In this program the search finds the same twice as deep, the type of the property is lowered and
the class laid out, the body of the constructor is found once it was begun, 20 levels are enough,
and no other body is asked for within any limit. -/
theorem compilation_stops_containing : containing.TypesFounded ∧ containing.LayoutsApart ∧
    containingSearch.gatherWithin (2 * containingSearch.depth) ⟨1⟩ none =
      containingSearch.gather ⟨1⟩ none ∧
    (Compile.Ended (Compile.infoOf .root ⟨9⟩) (.of containing .ambient {}) .start ∧
      Compile.Ended (Compile.layoutOf ⟨1⟩) (.of containing .ambient {}) .start) ∧
    Compile.function .refuse containingBody (.of containing .ambient {}) containingBegun =
      .ok ⟨⟨1⟩, ⟨0⟩, [], .void⟩ containingBegun ∧
    (∀ failure, compileUnitWithin 20 containing .ambient {} = .error failure →
      failure.cause ≠ .tooDeep) ∧
    compileUnitWithin 30 containing .ambient {} = compileUnitWithin 20 containing .ambient {} ∧
    (containing.ExprsFounded ∧ containing.StmtsFounded ∧ containing.StartsPlain) ∧
    ∃ limit, (∀ failure, compileUnitWithin limit containing .ambient {} = .error failure →
        failure.cause ≠ .tooDeep) ∧
      ∀ limit', limit ≤ limit' →
        compileUnitWithin limit' containing .ambient {} =
        compileUnitWithin limit containing .ambient {} := by
  have founded : containing.TypesFounded := by decide +kernel
  have exprs : containing.ExprsFounded := by decide +kernel
  have stmts : containing.StmtsFounded := by decide +kernel
  have plain : containing.StartsPlain := by
    intro cls start isStart
    rw [containing_initializers] at isStart
    cases isStart
  obtain ⟨search, types, bodies, limits, ends⟩ :=
    compilation_stops containing founded containing_apart
  have lowered := types (.of containing .ambient {}) rfl .start
  have begun : containingBegun.functions.get? containingBody.key = some ⟨⟨1⟩, ⟨0⟩, [], .void⟩ := by
    decide +kernel
  have ended : ∀ failure, compileUnitWithin 20 containing .ambient {} = .error failure →
      failure.cause ≠ .tooDeep := by
    have cause : causeOf? (compileUnitWithin 20 containing .ambient {}) = none := by decide +kernel
    intro failure failed
    rw [failed] at cause
    cases cause
  exact ⟨founded, containing_apart, search containingSearch rfl _ (by omega) _ _,
    ⟨lowered.1 .root ⟨9⟩, lowered.2 ⟨1⟩⟩,
    bodies (.of containing .ambient {}) rfl _ _ containingBody _ begun (.refl _) .refuse,
    ended, limits .ambient {} 20 30 (by omega) ended, ⟨exprs, stmts, plain⟩,
    ends exprs stmts plain .ambient {} _ containing_confined⟩

/-! ## A class within itself -/

/-- A class with a property for an intersection that the class itself is a member of. -/
@[irreducible] def selfContaining : Program := (Id.run <| StateT.run (do
  let cls ← Construction.classDecl "C" none .none
  let both ← Construction.intersectionType [← Construction.instanceType cls,
    ← Construction.objectType []]
  discard <| Construction.property cls "x" both none
  Construction.pushEntry (← Construction.stmt (.classDecl cls))
  Construction.pushEntry (← Construction.stmt (.expr (← Construction.expr (.construct cls [])))) :
    Building Unit) {}).2.program

namespace Compile

variable {s : Setup} {w w' : Work} {α β : Type}

/-- The step nests too deep. -/
def Deep (m : Compile α) (s : Setup) (w : Work) : Prop :=
  ∃ e w', m s w = .error e w' ∧ e.cause = .tooDeep

namespace Deep

variable {m : Compile α} {f : α → Compile β}

theorem bind (h : Deep m s w) : Deep (m >>= f) s w := by
  obtain ⟨e, w', ran, deep⟩ := h
  refine ⟨e, w', ?_, deep⟩
  rw [bind_apply, ran]

theorem after {a : α} {v : Work} (ran : m s w = .ok a v) (h : Deep (f a) s v) :
    Deep (m >>= f) s w := by
  obtain ⟨e, w', ran', deep⟩ := h
  refine ⟨e, w', ?_, deep⟩
  rw [bind_apply, ran]
  exact ran'

theorem asked {question : Program → Except ProgramError α} {a : α}
    (answer : question s.program = .ok a) (h : Deep (f a) s w) :
    Deep (asks question >>= f) s w := by
  refine .after (v := w) ?_ h
  rw [asks_apply, answer]

end Deep

theorem hasTable_ok {chain : List DeclId} (declared :
    ∀ c ∈ chain, (s.program.decl c).toOption.isSome) :
    ∃ flag, hasTable chain s w = .ok flag w := by
  have flags : ∃ fs, (chain.mapM fun c => return (← asks (·.decl c)).flags.table :
    Compile (List Bool))
      s w = .ok fs w := by
    induction chain with
    | nil => exact ⟨[], rfl⟩
    | cons c rest ih =>
      obtain ⟨d, isDecl⟩ := Option.isSome_iff_exists.mp (declared c List.mem_cons_self)
      obtain ⟨fs, ran⟩ := ih fun c' inside => declared c' (List.mem_cons_of_mem _ inside)
      have first : (do return (← asks (·.decl c)).flags.table : Compile Bool) s w =
          .ok d.flags.table w := by
        rw [bind_apply, asks_apply, toOption_eq_some_iff.mp isDecl]
        rfl
      refine ⟨d.flags.table :: fs, ?_⟩
      rw [List.mapM_cons, bind_apply, first]
      change (List.mapM _ rest >>= _ : Compile (List Bool)) s w = _
      rw [bind_apply, ran]
      rfl
  obtain ⟨fs, ran⟩ := flags
  refine ⟨fs.any id, ?_⟩
  rw [hasTable, bind_apply, ran]
  rfl

/-- A class whose first property is of an intersection with the class as its first member is laid
out without end: whatever the depth, the way to its layout leads to the intersection again. -/
theorem infoAt_deep {cls d : DeclId} {chain ds : List DeclId} {t m : TypeId} {members : List TypeId}
    (isChain : s.program.classChain cls = .ok chain)
    (declared : ∀ c ∈ chain, (s.program.decl c).toOption.isSome)
    (areProps : s.program.instanceProperties cls = .ok (d :: ds))
    (isProp : (s.program.property d).toOption.map (·.ty) = some t)
    (plain : s.program.types.mentionsParam t = false)
    (isIntersection : s.program.types.get t = .intersection (m :: members))
    (isInstance : s.program.types.get m = .instanceOf cls) (depth : Nat)
    (new : w.layouts.get? cls = none) : Deep (infoAt depth .root t) s w := by
  obtain ⟨q, known, rfl⟩ := Option.map_eq_some_iff.mp isProp
  induction depth with
  | zero => exact ⟨_, w, rfl, rfl⟩
  | succ depth ih =>
    refine .after (v := w) rfl ?_
    simp only [isIntersection]
    refine .bind ?_
    cases depth with
    | zero => exact .bind ⟨_, w, rfl, rfl⟩
    | succ depth =>
      have member : infoAt (depth + 1) .root m s w = .ok (.instanceOf cls) w := by
        rw [infoAt, program_bind_apply]
        simp only [isInstance]
        rfl
      refine .after member (.bind (.bind ?_))
      refine .after (v := w) rfl ?_
      simp only [new]
      obtain ⟨flag, tabled⟩ := hasTable_ok declared (w := w)
      refine .asked isChain (.after tabled (.asked areProps (.bind ?_)))
      rw [List.mapM_cons]
      refine .bind (.bind (.asked (toOption_eq_some_iff.mp known) (.after (v := w) rfl ?_)))
      rw [plain]
      exact ih

end Compile

/-- At no depth is the type of the property lowered, as long as the class is not laid out, and the
program does not compile. -/
theorem selfContaining_endless : selfContaining.TypesFounded ∧
    (∀ depth s w, s.program = selfContaining → w.layouts.get? ⟨0⟩ = none →
      ∃ e w', Compile.infoAt depth .root ⟨9⟩ s w = .error e w' ∧ e.cause = .tooDeep) ∧
    ∃ failure, compileUnit selfContaining .ambient {} = .error failure ∧
      failure.cause = .tooDeep := by
  refine ⟨by decide +kernel, fun depth s w isProgram new => ?_, of_causeOf? (by decide +kernel)⟩
  have isChain : selfContaining.classChain ⟨0⟩ = .ok [⟨0⟩] := by decide +kernel
  have declared : ∀ c ∈ [⟨0⟩], (selfContaining.decl c).toOption.isSome := by decide +kernel
  have areProps : selfContaining.instanceProperties ⟨0⟩ = .ok [⟨1⟩] := by decide +kernel
  have isProp : (selfContaining.property ⟨1⟩).toOption.map (·.ty) = some ⟨9⟩ := by decide +kernel
  have plain : selfContaining.types.mentionsParam ⟨9⟩ = false := by decide +kernel
  have isIntersection : selfContaining.types.get ⟨9⟩ = .intersection [⟨7⟩, ⟨8⟩] := by decide +kernel
  have isInstance : selfContaining.types.get ⟨7⟩ = .instanceOf ⟨0⟩ := by decide +kernel
  rw [← isProgram] at isChain declared areProps isProp plain isIntersection isInstance
  exact Compile.infoAt_deep isChain declared areProps isProp plain isIntersection
    isInstance depth new

end ShapeCompiler
