import Mathlib.Data.Finset.Card
import Mathlib.Data.List.Nodup
import ShapeCompiler.Proofs.Overrides

/-!
# Classes and their bases

* `Program.Lineage`: a class followed by its bases, up to one without a base;
* `Program.Lineage.classChain`: where it comes to an end, this is the chain of the class;
* `Program.Lineage.suffix`: it goes on with the chain of each base;
* `Program.instanceProperties_prefix`: so a class has the properties of a base first.

A hierarchy that goes round has chains too, but none goes on with another.
-/

namespace ShapeCompiler

open Source

namespace Source.Program

variable {p : Program} {c base : DeclId} {chain : List DeclId}

/-- A class and its bases, up to one that has none. -/
inductive Lineage (p : Program) : Option DeclId → List DeclId → Prop
  | nil : p.Lineage none []
  | cons {c : DeclId} {cls : ClassDecl} {rest : List DeclId} (isClass : p.classDecl c = .ok cls)
    (further : p.Lineage cls.base rest) : p.Lineage (some c) (c :: rest)

/-- The last class has no base. -/
def EndsAtTop (p : Program) (chain : List DeclId) : Prop :=
  ∃ c cls, chain.getLast? = some c ∧ p.classDecl c = .ok cls ∧ cls.base = none

/-- Whether the last class has no base. -/
def endsAtTop (p : Program) (chain : List DeclId) : Bool :=
  chain.getLast?.any fun c => (p.classDecl c).toOption.any (·.base.isNone)

theorem endsAtTop_iff : p.endsAtTop chain ↔ p.EndsAtTop chain := by
  unfold endsAtTop EndsAtTop
  constructor
  · intro ends
    obtain ⟨c, isLast, accepted⟩ := (Option.any_eq_true _ _).mp ends
    obtain ⟨cls, isClass, isTop⟩ := (Option.any_eq_true _ _).mp accepted
    refine ⟨c, cls, isLast, ?_, by simpa using isTop⟩
    cases answer : p.classDecl c <;> simp_all [Except.toOption]
  · rintro ⟨c, cls, isLast, isClass, isTop⟩
    simp [isLast, isClass, isTop, Except.toOption]

instance : Decidable (p.EndsAtTop chain) := decidable_of_iff _ endsAtTop_iff

/-- A walk that stops elsewhere stops below a base. -/
theorem lineage_of_chainFrom {steps : Nat} {walked : List DeclId} {last : DeclId} {cls : ClassDecl}
    (isLast : walked.getLast? = some last) (isClass : p.classDecl last = .ok cls)
    (h : p.chainFrom steps walked cls.base = .ok chain) (ends : p.EndsAtTop chain) :
    ∃ rest, chain = walked ++ rest ∧ p.Lineage cls.base rest := by
  have stopped {base : DeclId} (isBase : cls.base = some base) (here : walked = chain) : False := by
    obtain ⟨c', cls', isLast', isClass', isTop⟩ := ends
    subst here
    cases isLast.symm.trans isLast'
    cases isClass.symm.trans isClass'
    simp [isBase] at isTop
  induction steps generalizing walked last cls with
  | zero =>
    cases isBase : cls.base with
    | none =>
      rw [isBase] at h
      cases h
      exact ⟨[], by simp, .nil⟩
    | some base =>
      rw [isBase] at h
      cases h
      exact (stopped isBase rfl).elim
  | succ steps ih =>
    cases isBase : cls.base with
    | none =>
      rw [isBase] at h
      cases h
      exact ⟨[], by simp, .nil⟩
    | some base =>
      rw [isBase] at h
      simp only [chainFrom] at h
      split at h
      · cases h
        exact (stopped isBase rfl).elim
      · obtain ⟨next, isNext, h⟩ := exists_of_bind_ok h
        obtain ⟨rest, parts, further⟩ := ih (by simp) isNext h (by
          intro base' isBase' here
          obtain ⟨c', cls', isLast', isClass', isTop⟩ := ends
          subst here
          obtain rfl : base = c' := by simpa using isLast'
          cases isNext.symm.trans isClass'
          simp [isBase'] at isTop)
        exact ⟨base :: rest, by simp [parts], .cons isNext further⟩

/-- A chain that comes to an end is a lineage. -/
theorem lineage_of_classChain (h : p.classChain c = .ok chain) (ends : p.EndsAtTop chain) :
    p.Lineage (some c) chain := by
  obtain ⟨cls, isClass, h⟩ := exists_of_bind_ok h
  obtain ⟨rest, rfl, further⟩ := lineage_of_chainFrom (by simp) isClass h ends
  exact .cons isClass further

/-- There are no more distinct classes than declarations. -/
theorem length_le_of_classes {classes : List DeclId} (distinct : classes.Nodup)
    (areClasses : ∀ c ∈ classes, ∃ cls, p.classDecl c = .ok cls) :
    classes.length ≤ p.decls.size := by
  have apart : (classes.map (·.raw)).Nodup :=
    distinct.map fun a b same => by cases a; cases b; simpa using same
  have inside : (classes.map (·.raw)).toFinset ⊆ Finset.range p.decls.size := by
    intro raw there
    obtain ⟨c, isOne, rfl⟩ := List.mem_map.mp (List.mem_toFinset.mp there)
    obtain ⟨cls, isClass⟩ := areClasses c isOne
    obtain ⟨decl, known, _⟩ := exists_of_bind_ok isClass
    unfold Program.decl at known
    split at known
    · rename_i there
      exact Finset.mem_range.mpr (Array.getElem?_eq_some_iff.mp there).1
    · cases known
  calc classes.length = (classes.map (·.raw)).length := by simp
    _ = (classes.map (·.raw)).toFinset.card := (List.toFinset_card_of_nodup apart).symm
    _ ≤ (Finset.range p.decls.size).card := Finset.card_le_card inside
    _ = p.decls.size := Finset.card_range _

namespace Lineage

theorem unique {start : Option DeclId} {chain' : List DeclId} (h : p.Lineage start chain)
    (h' : p.Lineage start chain') : chain = chain' := by
  induction h generalizing chain' with
  | nil =>
    cases h'
    rfl
  | cons isClass _ ih =>
    cases h' with
    | cons isClass' further' =>
      cases isClass.symm.trans isClass'
      rw [ih further']

/-- It goes on with the lineage of each of its classes. -/
theorem suffix {start : Option DeclId} (h : p.Lineage start chain) (inside : base ∈ chain) :
    ∃ before above, chain = before ++ above ∧ p.Lineage (some base) above := by
  induction h with
  | nil => cases inside
  | @cons c cls rest isClass further ih =>
    by_cases same : base = c
    · subst same
      exact ⟨[], base :: rest, rfl, .cons isClass further⟩
    · obtain ⟨before, above, parts, line⟩ := ih ((List.mem_cons.mp inside).resolve_left same)
      exact ⟨c :: before, above, by simp [parts], line⟩

theorem isClass {start : Option DeclId} (h : p.Lineage start chain) :
    ∀ c ∈ chain, ∃ cls, p.classDecl c = .ok cls := by
  induction h with
  | nil => simp
  | cons isClass _ ih => exact List.forall_mem_cons.mpr ⟨⟨_, isClass⟩, ih⟩

/-- No class comes twice: it would be followed by itself again and again. -/
theorem nodup {start : Option DeclId} (h : p.Lineage start chain) : chain.Nodup := by
  induction h with
  | nil => exact .nil
  | @cons c cls rest isClass further ih =>
    refine List.nodup_cons.mpr ⟨fun again => ?_, ih⟩
    obtain ⟨before, above, parts, line⟩ := further.suffix again
    have same := line.unique (.cons isClass further)
    have lengths := congrArg List.length parts
    simp only [same, List.length_append, List.length_cons] at lengths
    omega

theorem length_le {start : Option DeclId} (h : p.Lineage start chain) :
    chain.length ≤ p.decls.size :=
  length_le_of_classes h.nodup h.isClass

/-- The walk takes every step. -/
theorem chainFrom {start : Option DeclId} {steps : Nat} {walked : List DeclId}
    (h : p.Lineage start chain) (distinct : (walked ++ chain).Nodup)
    (enough : chain.length ≤ steps) :
    p.chainFrom steps walked start = .ok (walked ++ chain) := by
  induction h generalizing walked steps with
  | nil => simp [Program.chainFrom]
  | @cons c cls rest isClass further ih =>
    obtain ⟨steps, rfl⟩ : ∃ fewer, steps = fewer + 1 :=
      ⟨steps - 1, by simp only [List.length_cons] at enough; omega⟩
    have new : c ∉ walked := fun there =>
      List.disjoint_of_nodup_append distinct there List.mem_cons_self
    have next : p.chainFrom steps (walked ++ [c]) cls.base = .ok (walked ++ [c] ++ rest) :=
      ih (by simpa using distinct) (by simpa using enough)
    simp only [Program.chainFrom, if_neg new, isClass]
    simpa [Bind.bind, Except.bind] using next

theorem classChain (h : p.Lineage (some c) chain) : p.classChain c = .ok chain := by
  have distinct := h.nodup
  have enough := h.length_le
  cases h with
  | @cons _ cls rest isClass further =>
    have walk : p.chainFrom p.decls.size [c] cls.base = .ok ([c] ++ rest) :=
      further.chainFrom (by simpa using distinct) (by simp only [List.length_cons] at enough; omega)
    simpa [Program.classChain, isClass, Bind.bind, Except.bind] using walk

end Lineage

/-- The chain of a base is the end of the chain of a class below it. -/
theorem classChain_suffix (h : p.classChain c = .ok chain) (ends : p.EndsAtTop chain)
    (inside : base ∈ chain) : ∃ before above, chain = before ++ above ∧
    p.classChain base = .ok above := by
  obtain ⟨before, above, parts, line⟩ := (lineage_of_classChain h ends).suffix inside
  exact ⟨before, above, parts, line.classChain⟩

/-- The properties of a base come first. -/
theorem instanceProperties_prefix {props baseProps : List DeclId} (h : p.classChain c = .ok chain)
    (ends : p.EndsAtTop chain) (inside : base ∈ chain) (own : p.instanceProperties c = .ok props)
    (ofBase : p.instanceProperties base = .ok baseProps) : baseProps <+: props := by
  obtain ⟨before, above, rfl, isAbove⟩ := classChain_suffix h ends inside
  unfold instanceProperties at own ofBase
  obtain ⟨_, asked, own⟩ := exists_of_bind_ok own
  cases asked.symm.trans h
  obtain ⟨_, asked, ofBase⟩ := exists_of_bind_ok ofBase
  cases asked.symm.trans isAbove
  obtain ⟨groups, isGroups, own⟩ := exists_of_bind_ok own
  obtain ⟨baseGroups, isBase, ofBase⟩ := exists_of_bind_ok ofBase
  rw [List.reverse_append, List.mapM_append, isBase] at isGroups
  obtain ⟨_, same, isGroups⟩ := exists_of_bind_ok isGroups
  cases same
  obtain ⟨more, _, isGroups⟩ := exists_of_bind_ok isGroups
  cases isGroups
  cases own
  cases ofBase
  simp

end Source.Program

end ShapeCompiler
