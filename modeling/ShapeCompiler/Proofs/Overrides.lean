import Mathlib.Data.List.Nodup
import ShapeCompiler.Proofs.Steps

/-!
# Overriding methods

* `Program.findFunction_first`: the method that is found is the first one going up the classes;
* `MethodTable.overriding_eq`: the methods that take the place of those in a table;
* `Overriding.unique`: a class has one table and one list of overriding methods.
-/

namespace ShapeCompiler

open Source Code

namespace Source.Program

variable {p : Program} {n : Name}

/-- The declaration of a method of a name. -/
def isMethod (n : Name) (d : Decl) : Bool := d.name = n && isFunctionOf [.method] d

/-- A class declares a method of a name. -/
def DeclaresMethod (p : Program) (c : DeclId) (n : Name) : Prop :=
  ∃ cls m d, p.classDecl c = .ok cls ∧ m ∈ cls.members ∧ p.decl m = .ok d ∧ isMethod n d

/-- Looks for a method of a name among the members of a class. -/
def declaresMethod (p : Program) (c : DeclId) (n : Name) : Bool :=
  match p.classDecl c with
  | .ok cls => cls.members.any fun m => (p.decl m).toOption.any (isMethod n)
  | .error _ => false

theorem declaresMethod_iff {c : DeclId} : p.declaresMethod c n ↔ p.DeclaresMethod c n := by
  unfold declaresMethod
  constructor
  · intro found
    split at found
    · rename_i cls isClass
      obtain ⟨m, member, accepted⟩ := List.any_eq_true.mp found
      obtain ⟨d, isDecl, accepted⟩ := (Option.any_eq_true _ _).mp accepted
      refine ⟨cls, m, d, isClass, member, ?_, accepted⟩
      cases answer : p.decl m <;> simp_all [Except.toOption]
    · cases found
  · rintro ⟨cls, m, d, isClass, member, isDecl, accepted⟩
    simp only [isClass]
    exact List.any_eq_true.mpr ⟨m, member, by simpa [isDecl, Except.toOption] using accepted⟩

instance {c : DeclId} : Decidable (p.DeclaresMethod c n) := decidable_of_iff _ declaresMethod_iff

/-- The method is the first of its name that the classes declare, in order. -/
inductive FirstMethod (p : Program) (n : Name) : List DeclId → DeclId → Prop where
  | here {c : DeclId} {rest : List DeclId} {cls : ClassDecl} {before after : List DeclId}
    {m : DeclId} {d : Decl} (isClass : p.classDecl c = .ok cls)
    (members : cls.members = before ++ m :: after)
    (others : ∀ o ∈ before, ∀ d, p.decl o = .ok d → isMethod n d = false)
    (isDecl : p.decl m = .ok d) (isMethod : isMethod n d) : FirstMethod p n (c :: rest) m
  | above {c m : DeclId} {rest : List DeclId} (none : ¬ p.DeclaresMethod c n)
    (further : FirstMethod p n rest m) : FirstMethod p n (c :: rest) m

theorem FirstMethod.declares {classes : List DeclId} {m : DeclId} (h : FirstMethod p n classes m) :
    ∃ c ∈ classes, p.DeclaresMethod c n := by
  induction h with
  | @here c _ cls before after m d isClass members _ isDecl isMethod =>
    exact ⟨c, by simp, cls, m, d, isClass, by simp [members], isDecl, isMethod⟩
  | above _ _ ih =>
    obtain ⟨c, member, declares⟩ := ih
    exact ⟨c, by simp [member], declares⟩

theorem FirstMethod.unique {classes : List DeclId} {m m' : DeclId} (h : FirstMethod p n classes m)
    (h' : FirstMethod p n classes m') : m = m' := by
  induction h with
  | @here c rest cls before after m d isClass members others isDecl isMethod =>
    cases h' with
    | @here _ _ cls' before' after' _ d' isClass' members' others' isDecl' isMethod' =>
      obtain rfl : cls = cls' := Except.ok.inj (isClass.symm.trans isClass')
      rw [members] at members'
      -- neither stands before the other
      rcases List.append_eq_append_iff.mp members' with ⟨between, rfl, rest⟩ | ⟨between, rfl, rest⟩
      · cases between with
        | nil => exact (List.cons.inj rest).1
        | cons first _ =>
          obtain rfl : m = first := (List.cons.inj rest).1
          simp [others' m (by simp) d isDecl] at isMethod
      · cases between with
        | nil => exact (List.cons.inj rest).1.symm
        | cons first _ =>
          obtain rfl : m' = first := (List.cons.inj rest).1
          simp [others m' (by simp) d' isDecl'] at isMethod'
    | above none _ => exact absurd ⟨cls, m, d, isClass, by simp [members], isDecl, isMethod⟩ none
  | above none _ ih =>
    cases h' with
    | @here _ _ cls before after m' d isClass members _ isDecl isMethod =>
      exact absurd ⟨cls, m', d, isClass, by simp [members], isDecl, isMethod⟩ none
    | above _ further => exact ih further

theorem FirstMethod.append {classes : List DeclId} {m : DeclId} (h : FirstMethod p n classes m)
    (more : List DeclId) : FirstMethod p n (classes ++ more) m := by
  induction h with
  | here isClass members others isDecl isMethod =>
    exact .here isClass members others isDecl isMethod
  | above none _ ih => exact .above none ih

/-- Classes that declare no such method do not matter. -/
theorem firstMethod_append_iff {classes more : List DeclId} {m : DeclId}
    (none : ∀ c ∈ classes, ¬ p.DeclaresMethod c n) :
    p.FirstMethod n (classes ++ more) m ↔ p.FirstMethod n more m := by
  induction classes with
  | nil => rfl
  | cons c rest ih =>
    obtain ⟨first, others⟩ := List.forall_mem_cons.mp none
    refine .trans ⟨fun h => ?_, .above first⟩ (ih others)
    cases h with
    | @here _ _ cls before after m d isClass members _ isDecl isMethod =>
      exact absurd ⟨cls, m, d, isClass, by simp [members], isDecl, isMethod⟩ first
    | above _ further => exact further

/-- The search stops at the first member that the test accepts. -/
theorem findMember_first {test : Decl → Bool} (members : List DeclId) {found : Option DeclId}
    (h : p.findMember test members = .ok found) :
    match found with
    | some m => ∃ before after d, members = before ++ m :: after ∧
        (∀ o ∈ before, ∀ d, p.decl o = .ok d → test d = false) ∧ p.decl m = .ok d ∧ test d
    | none => ∀ m ∈ members, ∀ d, p.decl m = .ok d → test d = false := by
  induction members with
  | nil =>
    cases h
    simp
  | cons m rest ih =>
    obtain ⟨d, isDecl, h⟩ := exists_of_bind_ok h
    split at h
    · rename_i accepted
      cases h
      exact ⟨[], rest, d, rfl, by simp, isDecl, accepted⟩
    · rename_i refused
      have first : ∀ d', p.decl m = .ok d' → test d' = false := by
        intro d' isDecl'
        obtain rfl : d = d' := Except.ok.inj (isDecl.symm.trans isDecl')
        simpa using refused
      have further := ih h
      cases found with
      | none =>
        intro o member
        rcases List.mem_cons.mp member with rfl | later
        · exact first
        · exact further o later
      | some m' =>
        obtain ⟨before, after, d', parts, others, isDecl', accepted⟩ := further
        refine ⟨m :: before, after, d', by simp [parts], ?_, isDecl', accepted⟩
        intro o member
        rcases List.mem_cons.mp member with rfl | later
        · exact first
        · exact others o later

/-- What is found is the first method of the name; if nothing is found, no class declares one. -/
theorem findFunction_first (classes : List DeclId) {found : Option DeclId}
    (h : p.findFunction n [.method] classes = .ok found) :
    match found with
    | some m => p.FirstMethod n classes m
    | none => ∀ c ∈ classes, ¬ p.DeclaresMethod c n := by
  induction classes with
  | nil =>
    cases h
    simp
  | cons c rest ih =>
    obtain ⟨cls, isClass, h⟩ := exists_of_bind_ok h
    obtain ⟨own, inClass, h⟩ := exists_of_bind_ok h
    have first := findMember_first cls.members inClass
    cases own with
    | some m =>
      cases h
      obtain ⟨before, after, d, parts, others, isDecl, accepted⟩ := first
      exact .here isClass parts others isDecl accepted
    | none =>
      have absent : ¬ p.DeclaresMethod c n := by
        rintro ⟨cls', m, d, isClass', member, isDecl, isMethod⟩
        obtain rfl : cls = cls' := Except.ok.inj (isClass.symm.trans isClass')
        exact absurd isMethod (by simpa [Program.isMethod] using first m member d isDecl)
      have further := ih h
      cases found with
      | some m => exact .above absent further
      | none =>
        intro o member
        rcases List.mem_cons.mp member with rfl | later
        · exact absent
        · exact further o later

theorem filterAuxM_mem {test : DeclId → Except ProgramError Bool} (as : List DeclId)
    {acc kept : List DeclId} (h : List.filterAuxM test as acc = .ok kept) :
    ∀ a ∈ kept, a ∈ acc ∨ a ∈ as ∧ test a = .ok true := by
  induction as generalizing acc with
  | nil =>
    cases h
    exact fun a member => .inl member
  | cons b rest ih =>
    obtain ⟨accepted, answer, h⟩ := exists_of_bind_ok h
    intro a member
    rcases ih h a member with old | ⟨inside, isTrue⟩
    · cases accepted with
      | true =>
        rcases List.mem_cons.mp old with rfl | older
        · exact .inr ⟨by simp, answer⟩
        · exact .inl older
      | false => exact .inl old
    · exact .inr ⟨by simp [inside], isTrue⟩

/-- The root of a class's table is one of the chain, and asks for a table. -/
theorem tableRoot_spec {cls root : DeclId} (h : p.tableRoot cls = .ok (some root)) :
    ∃ chain d, p.classChain cls = .ok chain ∧ root ∈ chain ∧ p.decl root =
    .ok d ∧ d.flags.table := by
  obtain ⟨chain, isChain, h⟩ := exists_of_bind_ok h
  obtain ⟨withTable, filtered, h⟩ := exists_of_bind_ok h
  obtain ⟨kept, walked, filtered⟩ := exists_of_bind_ok filtered
  cases filtered
  have isLast : kept.reverse.getLast? = some root := Except.ok.inj h
  have member : root ∈ kept := by simpa using List.mem_of_getLast? isLast
  rcases filterAuxM_mem chain walked root member with old | ⟨listed, isTrue⟩
  · cases old
  · obtain ⟨d, isDecl, flag⟩ := exists_of_bind_ok isTrue
    exact ⟨chain, d, isChain, listed, isDecl, Except.ok.inj flag⟩

end Source.Program

/-! ## Tables -/

namespace MethodTable

variable {t : MethodTable} {p : Program} {classes : List DeclId}
  {overrides : List (Name × DeclId × Nat)}

/-- The method that takes the place of one in a table, if any does. -/
def replacement (p : Program) (classes : List DeclId) (n : Name) : Option DeclId :=
  match p.findFunction n [.method] classes with
  | .ok found => found
  | .error _ => none

/-- A method that is overridden, with its slot. -/
def overridden (t : MethodTable) (p : Program) (classes : List DeclId) (n : Name) :
    Option (Name × DeclId × Nat) := do
  return (n, ← replacement p classes n, ← t.slotOf n)

/-- Every search succeeds, and the methods that are overridden are listed in order. -/
theorem overriding_eq (h : t.overriding p classes = .ok overrides) :
    (∀ n d, (n, d) ∈ t.methods →
      p.findFunction n [.method] classes = .ok (replacement p classes n)) ∧
    overrides = t.methods.filterMap fun method => t.overridden p classes method.1 := by
  unfold overriding at h
  generalize t.methods = methods at h
  induction methods generalizing overrides with
  | nil =>
    cases h
    simp
  | cons method rest ih =>
    obtain ⟨n, d⟩ := method
    rw [List.filterMapM_cons] at h
    obtain ⟨listed, isListed, h⟩ := exists_of_bind_ok h
    obtain ⟨found, search, isListed⟩ := exists_of_bind_ok isListed
    have isFound : replacement p classes n = found := by simp [replacement, search]
    have isOverridden : t.overridden p classes n = listed := by
      rw [overridden, isFound]
      exact Except.ok.inj isListed
    have searches (more : ∀ m e, (m, e) ∈ rest →
        p.findFunction m [.method] classes = .ok (replacement p classes m)) :
        ∀ m e, (m, e) ∈ (n, d) :: rest →
          p.findFunction m [.method] classes = .ok (replacement p classes m) := by
      intro m e member
      rcases List.mem_cons.mp member with same | later
      · cases same
        rw [search, isFound]
      · exact more m e later
    cases listed with
    | none =>
      obtain ⟨more, isMore⟩ := ih h
      exact ⟨searches more, by simp [isOverridden, isMore]⟩
    | some override =>
      obtain ⟨tail, isTail, h⟩ := exists_of_bind_ok h
      obtain ⟨more, isMore⟩ := ih isTail
      cases h
      exact ⟨searches more, by simp [isOverridden, isMore]⟩

theorem slotOf_eq (distinct : (t.methods.map (·.1)).Nodup) {i : Nat} {n : Name} {d : DeclId}
    (here : t.methods[i]? = some (n, d)) : t.slotOf n = some (i + t.header) := by
  obtain ⟨inside, isMethod⟩ := List.getElem?_eq_some_iff.mp here
  have found : t.methods.findIdx? (·.1 = n) = some i := by
    rw [List.findIdx?_eq_some_iff_getElem]
    refine ⟨inside, by simp [isMethod], fun j before => ?_⟩
    simp only [decide_eq_true_eq]
    intro same
    have there : (t.methods.map (·.1))[j]? = (t.methods.map (·.1))[i]? := by
      simp [List.getElem?_eq_getElem (show j < t.methods.length by omega), same, here]
    have := (List.getElem?_inj (by simp; omega) distinct).mp there
    omega
  simp [slotOf, found]

/-- The methods that are overridden, with their places in the list and in the table. -/
structure Lists (t : MethodTable) (p : Program) (classes : List DeclId)
    (overrides : List (Name × DeclId × Nat)) : Prop where
  searches : ∀ n d, (n, d) ∈ t.methods →
    p.findFunction n [.method] classes = .ok (replacement p classes n)
  listed : ∀ i n d m, t.methods[i]? = some (n, d) → replacement p classes n = some m →
    (n, m, i + t.header) ∈ overrides
  source : ∀ n m slot, (n, m, slot) ∈ overrides → replacement p classes n = some m ∧
    ∃ i d, t.methods[i]? = some (n, d) ∧ slot = i + t.header
  names : (overrides.map (·.1)).Nodup
  length : overrides.length ≤ t.methods.length

theorem overriding_lists (distinct : (t.methods.map (·.1)).Nodup)
    (h : t.overriding p classes = .ok overrides) : t.Lists p classes overrides := by
  obtain ⟨searches, rfl⟩ := overriding_eq h
  refine ⟨searches, ?_, ?_, ?_, List.length_filterMap_le _ _⟩
  · intro i n d m here found
    refine List.mem_filterMap.mpr ⟨(n, d), List.mem_of_getElem? here, ?_⟩
    simp [overridden, found, slotOf_eq distinct here]
  · intro n m slot member
    obtain ⟨⟨n', d⟩, isMethod, same⟩ := List.mem_filterMap.mp member
    obtain ⟨i, here⟩ := List.mem_iff_getElem?.mp isMethod
    simp only [overridden, slotOf_eq distinct here] at same
    obtain ⟨m', found, same⟩ := Option.bind_eq_some_iff.mp same
    simp only [Option.bind_eq_bind, Option.bind_some, Option.pure_def, Option.some.injEq,
      Prod.mk.injEq] at same
    obtain ⟨rfl, rfl, rfl⟩ := same
    exact ⟨found, i, d, here, rfl⟩
  · have names : ((t.methods.filterMap fun method => t.overridden p classes method.1).map
        (·.1)).Sublist (t.methods.map (·.1)) := by
      generalize t.methods = methods
      induction methods with
      | nil => simp
      | cons method rest ih =>
        cases isListed : t.overridden p classes method.1 with
        | none => simpa [isListed] using ih.cons method.1
        | some override =>
          have same : override.1 = method.1 := by
            simp only [overridden] at isListed
            obtain ⟨m, _, isListed⟩ := Option.bind_eq_some_iff.mp isListed
            obtain ⟨slot, _, isListed⟩ := Option.bind_eq_some_iff.mp isListed
            cases isListed
            rfl
          simpa [isListed, same] using ih.cons_cons method.1
    exact distinct.sublist names

namespace Lists

variable {n : Name} {d m : DeclId}

/-- What takes the place of a method is the first one of its name. -/
theorem first (h : t.Lists p classes overrides) (inTable : (n, d) ∈ t.methods)
    (found : replacement p classes n = some m) : p.FirstMethod n classes m := by
  have search := h.searches n d inTable
  rw [found] at search
  exact Program.findFunction_first classes search

/-- A method that one of the classes declares is replaced. -/
theorem replaced (h : t.Lists p classes overrides) (inTable : (n, d) ∈ t.methods) {c : DeclId}
    (member : c ∈ classes) (declares : p.DeclaresMethod c n) :
    ∃ m, replacement p classes n = some m := by
  cases found : replacement p classes n with
  | some m => exact ⟨m, rfl⟩
  | none =>
    have search := h.searches n d inTable
    rw [found] at search
    exact absurd declares (Program.findFunction_first classes search c member)

/-- What is listed is declared by one of the classes. -/
theorem declared (h : t.Lists p classes overrides) {slot : Nat}
    (listed : (n, m, slot) ∈ overrides) :
    ∃ i d, t.methods[i]? = some (n, d) ∧ slot = t.header + i ∧
      ∃ c ∈ classes, p.DeclaresMethod c n := by
  obtain ⟨found, i, d, here, rfl⟩ := h.source n m slot listed
  exact ⟨i, d, here, Nat.add_comm _ _, (h.first (List.mem_of_getElem? here) found).declares⟩

/-- Different methods have different slots. -/
theorem slots_nodup (h : t.Lists p classes overrides) : (overrides.map (·.2.2)).Nodup := by
  refine h.names.of_map.map_on ?_
  rintro ⟨n, m, slot⟩ inside ⟨n', m', slot'⟩ inside' same
  obtain ⟨_, i, d, here, isSlot⟩ := h.source n m slot inside
  obtain ⟨_, i', d', here', isSlot'⟩ := h.source n' m' slot' inside'
  dsimp only at same
  obtain rfl : i = i' := by omega
  have sameMethod : (n, d) = (n', d') := Option.some.inj (here.symm.trans here')
  exact List.inj_on_of_nodup_map h.names inside inside' (Prod.mk.inj sameMethod).1

end Lists

end MethodTable

/-- No more methods take the place of others than the table has, and they have slots of the
table. -/
theorem Overriding.inTable {s : Setup} {cls : DeclId} {t : MethodTable}
    {overrides : List (Name × DeclId × Nat)} (h : Overriding s cls t overrides) :
    overrides.length ≤ t.methods.length ∧ ∀ o ∈ overrides, o.2.2 < t.length := by
  obtain ⟨chain, -, listed⟩ := h.listed
  obtain ⟨-, rfl⟩ := MethodTable.overriding_eq listed
  refine ⟨List.length_filterMap_le _ _, fun o inside => ?_⟩
  obtain ⟨⟨n, d⟩, -, same⟩ := List.mem_filterMap.mp inside
  obtain ⟨m, -, same⟩ := Option.bind_eq_some_iff.mp same
  obtain ⟨slot, isSlot, same⟩ := Option.bind_eq_some_iff.mp same
  cases same
  obtain ⟨i, found, rfl⟩ := Option.map_eq_some_iff.mp isSlot
  have := (List.findIdx?_eq_some_iff_getElem.mp found).1
  have := h.fits.enough
  dsimp only
  omega

/-- A class has one form of table, and one list of overriding methods. -/
theorem Overriding.unique {s : Setup} {cls : DeclId} {t t' : MethodTable}
    {overrides overrides' : List (Name × DeclId × Nat)} (h : Overriding s cls t overrides)
    (h' : Overriding s cls t' overrides') :
    t'.length = t.length ∧ overrides' = overrides := by
  have root : t'.root = t.root := by
    have := h'.root.symm.trans h.root
    simpa using this
  have methods : t'.methods = t.methods := by
    have := h'.fits.methods
    rw [root, h.fits.methods] at this
    exact (Except.ok.inj this).symm
  have header : t'.header = t.header := h'.fits.header.trans h.fits.header.symm
  obtain ⟨c, isClass, length⟩ := h.fits.length
  obtain ⟨c', isClass', length'⟩ := h'.fits.length
  rw [root, isClass] at isClass'
  obtain rfl := Except.ok.inj isClass'
  obtain ⟨chain, isChain, listed⟩ := h.listed
  obtain ⟨chain', isChain', listed'⟩ := h'.listed
  obtain rfl : chain = chain' := Except.ok.inj (isChain.symm.trans isChain')
  refine ⟨by rw [length', length, header, methods], ?_⟩
  have same : t'.overriding s.program = t.overriding s.program := by
    funext classes
    simp only [MethodTable.overriding, MethodTable.slotOf, methods, header]
  rw [root, same, listed] at listed'
  exact (Except.ok.inj listed').symm

end ShapeCompiler
