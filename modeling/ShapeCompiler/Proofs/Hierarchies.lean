import Mathlib.Data.List.Chain
import ShapeCompiler.Proofs.Lineages
import ShapeCompiler.Source.Construction

/-!
# Chains of classes in every hierarchy

The bases of a class may go round, and may lead to an id that is no class.

* `Program.Ascends`: the walk from class to base, as a loop without a bound;
* `Program.Line`: distinct ids, each the base of the class before;
* `Program.EndsAs`: a line that comes to its end, or to an id that is no class;
* `class_chain_faithful`: the chain of a class is the line that comes to its end, and there is none
  exactly if the line breaks off.

A walk goes through distinct classes, so there are enough steps for it (`chainFrom_ascends`).
-/

namespace ShapeCompiler

open Source

namespace Source.Program

variable {p : Program} {c base last : DeclId} {cls : ClassDecl} {chain line walked : List DeclId}

/-! ## Lines -/

/-- The one is a class, and the other its base. -/
def HasBase (p : Program) (c base : DeclId) : Prop :=
  ∃ cls, p.classDecl c = .ok cls ∧ cls.base = some base

/-- Distinct ids from `c` on, each the base of the class before. -/
structure Line (p : Program) (c : DeclId) (line : List DeclId) : Prop where
  first : line.head? = some c
  distinct : line.Nodup
  linked : line.IsChain p.HasBase

/-- The line comes to its end: the last class has no base, or one that the line has already. -/
structure WholeLine (p : Program) (c : DeclId) (line : List DeclId) :
    Prop extends p.Line c line where
  ends : ∃ last cls, line.getLast? = some last ∧ p.classDecl last = .ok cls ∧
    ∀ base, cls.base = some base → base ∈ line

/-- The line breaks off: the last id is no class, for this reason. -/
structure BrokenLine (p : Program) (c : DeclId) (line : List DeclId) (e : ProgramError) : Prop
    extends p.Line c line where
  breaks : ∃ last, line.getLast? = some last ∧ p.classDecl last = .error e

/-- The chain of a class is a line that comes to its end, and fails where the line breaks off. -/
def EndsAs (p : Program) (c : DeclId) : Except ProgramError (List DeclId) → Prop
  | .ok chain => p.WholeLine c chain
  | .error e => ∃ line, p.BrokenLine c line e

namespace Line

theorem single (p : Program) (c : DeclId) : p.Line c [c] :=
    ⟨rfl, List.nodup_singleton c, .singleton c⟩

/-- A line goes on with the base of its last class, unless it has this base. -/
theorem snoc (h : p.Line c line) (isLast : line.getLast? = some last)
    (isClass : p.classDecl last = .ok cls)
    (isBase : cls.base = some base) (new : base ∉ line) : p.Line c (line ++ [base]) where
  first := by
    rw [List.head?_append, h.first]
    rfl
  distinct := by
    rw [← List.concat_eq_append]
    exact h.distinct.concat new
  linked := by
    refine List.isChain_append.mpr ⟨h.linked, .singleton _, fun x isX y isY => ?_⟩
    cases isLast.symm.trans isX
    cases isY
    exact ⟨cls, isClass, isBase⟩

/-- What follows after a line is the base of its last class. -/
theorem hasBase {more : List DeclId} (h : p.Line c (line ++ base :: more))
    (isLast : line.getLast? = some last) : p.HasBase last base :=
  (List.isChain_append.mp h.linked).2.2 last isLast base rfl

/-- Of two lines from one class, one is the beginning of the other. -/
theorem comparable {line' : List DeclId} (h : p.Line c line) (h' : p.Line c line') :
    line <+: line' ∨ line' <+: line := by
  obtain ⟨first, -, linked⟩ := h
  obtain ⟨first', -, linked'⟩ := h'
  induction line generalizing c line' with
  | nil => exact .inl List.nil_prefix
  | cons a rest ih =>
    cases line' with
    | nil => exact .inr List.nil_prefix
    | cons a' rest' =>
      obtain rfl : a = c := Option.some.inj first
      obtain rfl : a' = a := Option.some.inj first'
      simp only [List.prefix_cons_inj]
      cases rest with
      | nil => exact .inl List.nil_prefix
      | cons b _ =>
        cases rest' with
        | nil => exact .inr List.nil_prefix
        | cons b' _ =>
          obtain ⟨⟨cls, isClass, isBase⟩, linked⟩ := List.isChain_cons_cons.mp linked
          obtain ⟨⟨cls', isClass', isBase'⟩, linked'⟩ := List.isChain_cons_cons.mp linked'
          cases isClass.symm.trans isClass'
          cases isBase.symm.trans isBase'
          exact ih rfl linked rfl linked'

/-- Lines from one class that go no further are the same. -/
theorem unique {line' : List DeclId} (h : p.Line c line) (h' : p.Line c line')
    (ends : ∀ base more, ¬ p.Line c (line ++ base :: more))
    (ends' : ∀ base more, ¬ p.Line c (line' ++ base :: more)) : line = line' := by
  rcases h.comparable h' with ⟨more, rfl⟩ | ⟨more, rfl⟩
  · cases more with
    | nil => simp
    | cons base more => exact absurd h' (ends base more)
  · cases more with
    | nil => simp
    | cons base more => exact absurd h (ends' base more)

end Line

theorem WholeLine.no_further (h : p.WholeLine c line) (base : DeclId) (more : List DeclId) :
    ¬ p.Line c (line ++ base :: more) := by
  intro further
  obtain ⟨last, cls, isLast, isClass, met⟩ := h.ends
  obtain ⟨cls', isClass', isBase⟩ := further.hasBase isLast
  cases isClass.symm.trans isClass'
  exact List.disjoint_of_nodup_append further.distinct (met base isBase) List.mem_cons_self

theorem BrokenLine.no_further {e : ProgramError} (h : p.BrokenLine c line e) (base : DeclId)
    (more : List DeclId) : ¬ p.Line c (line ++ base :: more) := by
  intro further
  obtain ⟨last, isLast, fails⟩ := h.breaks
  obtain ⟨cls, isClass, _⟩ := further.hasBase isLast
  cases fails.symm.trans isClass

theorem EndsAs.unique {result result' : Except ProgramError (List DeclId)} (h : p.EndsAs c result)
    (h' : p.EndsAs c result') : result = result' := by
  cases result with
  | ok chain =>
    have whole : p.WholeLine c chain := h
    cases result' with
    | ok chain' =>
      have whole' : p.WholeLine c chain' := h'
      rw [whole.toLine.unique whole'.toLine whole.no_further whole'.no_further]
    | error e =>
      obtain ⟨line, broken⟩ := h'
      obtain rfl := whole.toLine.unique broken.toLine whole.no_further broken.no_further
      obtain ⟨last, cls, isLast, isClass, _⟩ := whole.ends
      obtain ⟨last', isLast', fails⟩ := broken.breaks
      cases isLast.symm.trans isLast'
      cases fails.symm.trans isClass
  | error e =>
    obtain ⟨line, broken⟩ := h
    cases result' with
    | ok chain =>
      have whole : p.WholeLine c chain := h'
      obtain rfl := broken.toLine.unique whole.toLine broken.no_further whole.no_further
      obtain ⟨last, cls, isLast, isClass, _⟩ := whole.ends
      obtain ⟨last', isLast', fails⟩ := broken.breaks
      cases isLast.symm.trans isLast'
      cases fails.symm.trans isClass
    | error e' =>
      obtain ⟨line', broken'⟩ := h'
      obtain rfl := broken.toLine.unique broken'.toLine broken.no_further broken'.no_further
      obtain ⟨last, isLast, fails⟩ := broken.breaks
      obtain ⟨last', isLast', fails'⟩ := broken'.breaks
      cases isLast.symm.trans isLast'
      cases fails.symm.trans fails'
      rfl

/-! ## The walk -/

/-- The walk from class to base: the classes so far, the base to go to, and how it ends. Nothing
bounds its steps. -/
inductive Ascends (p : Program) :
    List DeclId → Option DeclId → Except ProgramError (List DeclId) → Prop
  | top {walked : List DeclId} : Ascends p walked none (.ok walked)
  | again {walked : List DeclId} {base : DeclId} (met : base ∈ walked) :
    Ascends p walked (some base) (.ok walked)
  | missing {walked : List DeclId} {base : DeclId} {e : ProgramError} (new : base ∉ walked)
    (fails : p.classDecl base = .error e) : Ascends p walked (some base) (.error e)
  | next {walked : List DeclId} {base : DeclId} {cls : ClassDecl}
    {result : Except ProgramError (List DeclId)} (new : base ∉ walked)
    (isClass : p.classDecl base = .ok cls) (further : Ascends p (walked ++ [base]) cls.base result)
    :
    Ascends p walked (some base) result

/-- With a step for each declaration that was not met yet, the walk comes to its end. -/
theorem chainFrom_ascends {steps : Nat} (start : Option DeclId) (distinct : walked.Nodup)
    (areClasses : ∀ c ∈ walked, ∃ cls, p.classDecl c = .ok cls)
    (enough : p.decls.size < walked.length + steps) :
    p.Ascends walked start (p.chainFrom steps walked start) := by
  induction steps generalizing walked start with
  | zero =>
    have := length_le_of_classes distinct areClasses
    omega
  | succ steps ih =>
    cases start with
    | none => exact .top
    | some base =>
      simp only [chainFrom]
      split
      · rename_i met
        exact .again met
      · rename_i new
        cases answer : p.classDecl base with
        | error e => exact .missing new answer
        | ok cls =>
          refine .next new answer (ih cls.base ?_ ?_ ?_)
          · rw [← List.concat_eq_append]
            exact distinct.concat new
          · intro c inside
            rcases List.mem_append.mp inside with before | isBase
            · exact areClasses c before
            · obtain rfl := List.mem_singleton.mp isBase
              exact ⟨cls, answer⟩
          · rw [List.length_append, List.length_singleton]
            omega

/-- A walk along a line ends as the line does. -/
theorem Ascends.ends {start : Option DeclId} {result : Except ProgramError (List DeclId)}
    (h : p.Ascends walked start result) (isLine : p.Line c walked)
    (isLast : walked.getLast? = some last)
    (isClass : p.classDecl last = .ok cls) (isNext : start = cls.base) : p.EndsAs c result := by
  induction h generalizing last cls with
  | top => exact ⟨isLine, last, cls, isLast, isClass, by simp [← isNext]⟩
  | again met =>
    refine ⟨isLine, last, cls, isLast, isClass, fun base isBase => ?_⟩
    cases isNext.trans isBase
    exact met
  | @missing _ base e new fails =>
    exact ⟨_, isLine.snoc isLast isClass isNext.symm new, base, by simp, fails⟩
  | @next _ base cls' _ new isClass' _ ih =>
    exact ih (isLine.snoc isLast isClass isNext.symm new) (by simp) isClass' rfl

theorem classChain_ascends (isClass : p.classDecl c = .ok cls) :
    p.Ascends [c] cls.base (p.classChain c) := by
  have walk : p.Ascends [c] cls.base (p.chainFrom p.decls.size [c] cls.base) :=
    chainFrom_ascends cls.base (List.nodup_singleton c) (by simp [isClass]) (by simp)
  simpa [classChain, isClass, Bind.bind, Except.bind] using walk

theorem classChain_endsAs (p : Program) (c : DeclId) : p.EndsAs c (p.classChain c) := by
  cases answer : p.classDecl c with
  | error e =>
    have fails : p.classChain c = .error e := by simp [classChain, answer, Bind.bind, Except.bind]
    rw [fails]
    exact ⟨[c], .single p c, c, rfl, answer⟩
  | ok cls => exact (classChain_ascends answer).ends (.single p c) rfl answer rfl

/-- The chain is known by how the line of the class ends. -/
theorem classChain_eq_iff {result : Except ProgramError (List DeclId)} :
    p.classChain c = result ↔ p.EndsAs c result := by
  constructor
  · rintro rfl
    exact classChain_endsAs p c
  · exact (classChain_endsAs p c).unique

/-- The ids of a line that comes to its end are classes. -/
theorem WholeLine.areClasses (h : p.WholeLine c line) :
    ∀ d ∈ line, ∃ cls, p.classDecl d = .ok cls := by
  obtain ⟨last, cls, isLast, isClass, -⟩ := h.ends
  obtain ⟨before, rfl⟩ := List.getLast?_eq_some_iff.mp isLast
  intro d inside
  rcases List.mem_append.mp inside with inside | isOne
  · obtain ⟨start, after, rfl⟩ := List.append_of_mem inside
    have linked := h.linked
    rw [List.append_assoc, List.cons_append] at linked
    have further := (List.isChain_append.mp linked).2.1
    cases rest : after ++ [last] with
    | nil => simp at rest
    | cons base more =>
      rw [rest] at further
      obtain ⟨⟨cls', isClass', _⟩, _⟩ := List.isChain_cons_cons.mp further
      exact ⟨cls', isClass'⟩
  · obtain rfl := List.mem_singleton.mp isOne
    exact ⟨cls, isClass⟩

/-! ## Tables -/

/-- The class asks for a table. -/
def asksForTable (p : Program) (c : DeclId) : Bool := (p.decl c).toOption.any (·.flags.table)

theorem filterM_eq_filter {ε α : Type} {test : α → Except ε Bool} {accepts : α → Bool} {as : List α}
    (answers : ∀ a ∈ as, test a = .ok (accepts a)) : as.filterM test = .ok (as.filter accepts) := by
  have walk (acc : List α) : as.filterAuxM test acc = .ok ((as.filter accepts).reverse ++ acc) := by
    induction as generalizing acc with
    | nil => rfl
    | cons a rest ih =>
      obtain ⟨first, others⟩ := List.forall_mem_cons.mp answers
      have next := ih others (if accepts a then a :: acc else acc)
      simp only [List.filterAuxM, first, Bind.bind, Except.bind, List.filter_cons] at next ⊢
      cases accepted : accepts a <;> simpa [accepted] using next
  simp [List.filterM, walk, Bind.bind, Except.bind, Pure.pure, Except.pure]

/-- The table belongs to the last class of the chain that asks for one. -/
theorem tableRoot_map (p : Program) (c : DeclId) : p.tableRoot c =
    (p.classChain c).map fun chain => (chain.filter p.asksForTable).getLast? := by
  unfold tableRoot
  cases answer : p.classChain c with
  | error e => rfl
  | ok chain =>
    have whole : p.WholeLine c chain := classChain_eq_iff.mp answer
    have asks : ∀ d ∈ chain, (do return (← p.decl d).flags.table : Except ProgramError Bool) =
        .ok (p.asksForTable d) := by
      intro d inside
      obtain ⟨cls, isClass⟩ := whole.areClasses d inside
      obtain ⟨decl, isDecl, _⟩ := exists_of_bind_ok isClass
      simp [isDecl, asksForTable, Except.toOption, Bind.bind, Except.bind, Pure.pure, Except.pure]
    simp only [Bind.bind, Except.bind] at asks ⊢
    rw [filterM_eq_filter asks]
    rfl

/-- Classes of one chain that have a table have the same. -/
theorem tableRoot_of_base {before above : List DeclId} {root root' : DeclId}
    (isChain : p.classChain c = .ok (before ++ above)) (isAbove : p.classChain base = .ok above)
    (h : p.tableRoot c = .ok (some root)) (ofBase : p.tableRoot base = .ok (some root')) :
    root = root' := by
  rw [tableRoot_map, isChain] at h
  rw [tableRoot_map, isAbove] at ofBase
  have isRoot : ((before ++ above).filter p.asksForTable).getLast? = some root := Except.ok.inj h
  have isRoot' : (above.filter p.asksForTable).getLast? = some root' := Except.ok.inj ofBase
  rw [List.filter_append, List.getLast?_append, isRoot'] at isRoot
  simpa using isRoot.symm

/-! ## Members -/

/-- The members of a class. -/
def memberIds (p : Program) (c : DeclId) : List DeclId :=
  match p.classDecl c with
  | .ok cls => cls.members
  | .error _ => []

/-- The declaration is there and not accepted. -/
def Refuses (p : Program) (accepts : Decl → Bool) (m : DeclId) : Prop :=
  ∃ d, p.decl m = .ok d ∧ accepts d = false

/-- How a search for the first accepted declaration ends: it goes past those that are not accepted,
and no further than to an id that is not there. -/
def SearchEnds (p : Program) (accepts : Decl → Bool) (ids : List DeclId) :
    Except ProgramError (Option DeclId) → Prop
  | .ok (some m) => ∃ before after d, ids = before ++ m :: after ∧
    (∀ o ∈ before, p.Refuses accepts o) ∧
      p.decl m = .ok d ∧ accepts d
  | .ok none => ∀ o ∈ ids, p.Refuses accepts o
  | .error e => ∃ before o after, ids = before ++ o :: after ∧ (∀ o ∈ before, p.Refuses accepts o) ∧
      p.decl o = .error e

theorem SearchEnds.cons {accepts : Decl → Bool} {m : DeclId} {ids : List DeclId}
    {result : Except ProgramError (Option DeclId)} (refuses : p.Refuses accepts m)
    (h : p.SearchEnds accepts ids result) : p.SearchEnds accepts (m :: ids) result := by
  cases result with
  | error e =>
    obtain ⟨before, o, after, rfl, others, fails⟩ := h
    exact ⟨m :: before, o, after, rfl, List.forall_mem_cons.mpr ⟨refuses, others⟩, fails⟩
  | ok found =>
    cases found with
    | none => exact List.forall_mem_cons.mpr ⟨refuses, h⟩
    | some m' =>
      obtain ⟨before, after, d, rfl, others, isDecl, accepted⟩ := h
      exact ⟨m :: before, after, d, rfl, List.forall_mem_cons.mpr ⟨refuses, others⟩,
        isDecl, accepted⟩

theorem findMember_ends (p : Program) (accepts : Decl → Bool) (ids : List DeclId) :
    p.SearchEnds accepts ids (p.findMember accepts ids) := by
  induction ids with
  | nil => exact fun _ inside => absurd inside List.not_mem_nil
  | cons m rest ih =>
    cases answer : p.decl m with
    | error e =>
      simp only [findMember, answer, Bind.bind, Except.bind]
      exact ⟨[], m, rest, rfl, by simp, answer⟩
    | ok d =>
      cases accepted : accepts d with
      | true =>
        simp only [findMember, answer, Bind.bind, Except.bind, accepted, if_true]
        exact ⟨[], rest, d, rfl, by simp, answer, accepted⟩
      | false =>
        simp only [findMember, answer, Bind.bind, Except.bind, accepted,
          Bool.false_eq_true, if_false]
        exact ih.cons ⟨d, answer, accepted⟩

theorem findMember_append (p : Program) (accepts : Decl → Bool) (ids more : List DeclId) :
    p.findMember accepts (ids ++ more) = (do
      match ← p.findMember accepts ids with
      | some m => return some m
      | none => p.findMember accepts more) := by
  induction ids with
  | nil => rfl
  | cons m rest ih =>
    simp only [List.cons_append, findMember]
    cases p.decl m with
    | error e => rfl
    | ok d =>
      cases accepted : accepts d with
      | true => simp [accepted, Bind.bind, Except.bind, Pure.pure, Except.pure]
      | false => simpa [accepted, Bind.bind, Except.bind] using ih

/-- The members of one class after the other are searched. -/
theorem findFunction_eq_findMember {classes : List DeclId} (n : Name) (kinds : List FunctionKind)
    (areClasses : ∀ c ∈ classes, ∃ cls, p.classDecl c = .ok cls) :
    p.findFunction n kinds classes =
      p.findMember (fun d => d.name = n && isFunctionOf kinds d) (classes.flatMap p.memberIds) := by
  induction classes with
  | nil => rfl
  | cons c rest ih =>
    obtain ⟨⟨cls, isClass⟩, others⟩ := List.forall_mem_cons.mp areClasses
    have isMembers : p.memberIds c = cls.members := by simp [memberIds, isClass]
    rw [List.flatMap_cons, findMember_append, ← ih others, isMembers, findFunction, isClass]
    rfl

/-- The chain of a class, whatever its hierarchy is like. The walk comes to an end by itself. The
chain consists of distinct classes from the class on, each the base of the one before, and the last
has no base or one of the chain. There is none exactly if the line of bases breaks off at an id that
is no class. The table belongs to the last class of the chain that asks for one, and a function that
is looked for is the first one of the members, class by class. -/
theorem class_chain_faithful (p : Program) (c : DeclId) :
    (∀ cls, p.classDecl c = .ok cls → p.Ascends [c] cls.base (p.classChain c)) ∧
    (∀ chain, p.classChain c = .ok chain ↔ p.WholeLine c chain) ∧
    (∀ e, p.classChain c = .error e ↔ ∃ line, p.BrokenLine c line e) ∧
    p.tableRoot c = (p.classChain c).map (fun chain => (chain.filter p.asksForTable).getLast?) ∧
    ∀ chain, p.classChain c = .ok chain → ∀ n kinds,
      p.SearchEnds (fun d => d.name = n && isFunctionOf kinds d) (chain.flatMap p.memberIds)
        (p.findFunction n kinds chain) := by
  refine ⟨fun cls => classChain_ascends, fun chain => classChain_eq_iff, fun e => classChain_eq_iff,
    tableRoot_map p c, fun chain isChain n kinds => ?_⟩
  have whole : p.WholeLine c chain := classChain_eq_iff.mp isChain
  rw [findFunction_eq_findMember n kinds whole.areClasses]
  exact findMember_ends p _ _

/-- Two classes, each the base of the other, of which the first has a table and a method, and a
class whose base is not there. -/
@[irreducible] def goesRound : Program := (Id.run <| StateT.run (do
  let cls ← Construction.classDecl "A" (some ⟨1⟩) { table := true }
  discard <| Construction.classDecl "B" (some cls) .none
  discard <| Construction.ambientMethod cls "m" [] .void .none
  discard <| Construction.classDecl "C" (some ⟨9⟩) .none
  : Building Unit) {}).2.program

/-- The chain goes round once, and the chain of the last class breaks off. -/
theorem class_chain_faithful_goesRound :
    (∃ cls, goesRound.classDecl ⟨1⟩ = .ok cls ∧
      goesRound.Ascends [⟨1⟩] cls.base (goesRound.classChain ⟨1⟩)) ∧
    goesRound.classChain ⟨1⟩ = .ok [⟨1⟩, ⟨0⟩] ∧ goesRound.WholeLine ⟨1⟩ [⟨1⟩, ⟨0⟩] ∧
    goesRound.tableRoot ⟨1⟩ = .ok (some ⟨0⟩) ∧
    goesRound.findFunction ⟨3⟩ [.method] [⟨1⟩, ⟨0⟩] = .ok (some ⟨2⟩) ∧
    goesRound.SearchEnds (fun d => d.name = ⟨3⟩ && isFunctionOf [.method] d)
      ([⟨1⟩, ⟨0⟩].flatMap goesRound.memberIds) (.ok (some ⟨2⟩)) ∧
    goesRound.classChain ⟨3⟩ = .error (.dangling ⟨9⟩) ∧
    ∃ line, goesRound.BrokenLine ⟨3⟩ line (.dangling ⟨9⟩) := by
  have isChain : goesRound.classChain ⟨1⟩ = .ok [⟨1⟩, ⟨0⟩] := by decide +kernel
  have breaksOff : goesRound.classChain ⟨3⟩ = .error (.dangling ⟨9⟩) := by decide +kernel
  have asks : [DeclId.mk 1, ⟨0⟩].filter goesRound.asksForTable = [⟨0⟩] := by decide +kernel
  have found : goesRound.findFunction ⟨3⟩ [.method] [⟨1⟩, ⟨0⟩] = .ok (some ⟨2⟩) := by decide +kernel
  obtain ⟨ascends, whole, -, root, nearest⟩ := class_chain_faithful goesRound ⟨1⟩
  obtain ⟨-, -, broken, -, -⟩ := class_chain_faithful goesRound ⟨3⟩
  obtain ⟨cls, isClass⟩ := ((whole _).mp isChain).areClasses ⟨1⟩ (by simp)
  refine ⟨⟨cls, isClass, ascends cls isClass⟩, isChain, (whole _).mp isChain, ?_,
    found, ?_, breaksOff,
    (broken _).mp breaksOff⟩
  · rw [root, isChain]
    simp [Except.map, asks]
  · exact found ▸ nearest _ isChain ⟨3⟩ [.method]

end Source.Program

end ShapeCompiler
