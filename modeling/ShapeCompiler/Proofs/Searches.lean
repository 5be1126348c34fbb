import ShapeCompiler.Proofs.Captures

/-!
# The search for captured variables comes to an end

The search marks each declaration that it follows, and follows none twice.

* `Program.left_cons_lt`: a new mark leaves fewer declarations;
* `Gathering.Same`: two steps of the search do the same wherever a property holds, and keep it;
* `Survey.pullAt_same`: calls are followed in the same way at any two depths that are enough for the
  declarations that are left;
* `Survey.gatherWithin_eq`: so no depth beyond that of the search lets it find anything else.
-/

namespace ShapeCompiler

open Source Code

namespace Source.Program

/-- How many declarations are not in a list. -/
def left (p : Program) (ds : List DeclId) : Nat :=
  ((List.range p.decls.size).filter fun i => ⟨i⟩ ∉ ds).length

variable (p : Program)

theorem left_le (ds : List DeclId) : p.left ds ≤ p.decls.size :=
  Nat.le_trans (List.length_filter_le _ _) (Nat.le_of_eq List.length_range)

/-- A declaration that was not in the list is not left once it is. -/
theorem left_cons_lt {d : DeclId} {ds : List DeclId} (known : d.raw < p.decls.size) (new : d ∉ ds) :
    p.left (d :: ds) < p.left ds := by
  have fewer : (List.range p.decls.size).filter (fun i => ⟨i⟩ ∉ d :: ds) =
      ((List.range p.decls.size).filter fun i => ⟨i⟩ ∉ ds).filter fun i => ⟨i⟩ ≠ d := by
    rw [List.filter_filter]
    refine List.filter_congr fun i _ => ?_
    simp
  unfold left
  rw [fewer]
  refine List.length_filter_lt_length_iff_exists.mpr ⟨d.raw, ?_, by simp⟩
  rw [List.mem_filter]
  exact ⟨List.mem_range.mpr known, by simpa using new⟩

end Source.Program

/-! ## Steps that do the same -/

namespace Gathering

variable {P : Gathered → Prop} {α β : Type}

/-- Wherever the property holds the two steps do the same, and it holds afterwards. -/
def Same (P : Gathered → Prop) (m m' : Gathering α) : Prop :=
  ∀ g, P g → m.run g = m'.run g ∧ ∀ a g', m.run g = .ok (a, g') → P g'

namespace Same

theorem of_keeps {m : Gathering α} (h : Keeps P (fun _ => True) m) : Same P m m := by
  refine fun g before => ⟨rfl, fun a g' ran => ?_⟩
  have after := h g before
  rw [ran] at after
  exact after

theorem bind {m m' : Gathering α} {f f' : α → Gathering β} (first : Same P m m')
    (rest : ∀ a, Same P (f a) (f' a)) : Same P (m >>= f) (m' >>= f') := by
  intro g before
  obtain ⟨same, keeps⟩ := first g before
  rw [StateT.run_bind, StateT.run_bind, ← same]
  cases ran : m.run g with
  | error cause =>
    constructor
    · rfl
    · rintro a g' ⟨⟩
  | ok result => exact rest result.1 result.2 (keeps _ _ ran)

theorem forM {f f' : α → Gathering PUnit} (each : ∀ a, Same P (f a) (f' a)) (as : List α) :
    Same P (as.forM f) (as.forM f') := by
  induction as with
  | nil => exact of_keeps (.pure _)
  | cons a as ih => exact bind (each a) fun _ => ih

end Same

end Gathering

/-- How many steps it may take to follow a call or a construction, if so many declarations are left:
each is followed once, and a constructor that is written out takes a step more. -/
def Pull.steps (left : Nat) : Pull → Nat
  | .function _ => 2 * left + 1
  | .construct _ => 2 * left + 2

namespace Survey

open Gathering

variable (s : Survey)

/-- The search with calls followed so many steps deep. -/
def gatherWithin (depth : Nat) (owner : DeclId) (cls : Option DeclId) : Except Cause Gathered := do
  let visits := s.free.refs.forM (s.visit (s.pullAt depth) cls .own)
  return (← visits.run { visited := [owner] }).2

theorem gather_eq (owner : DeclId) (cls : Option DeclId) :
    s.gather owner cls = s.gatherWithin s.depth owner cls := rfl

/-- At most so many declarations are not marked. -/
def Left (left : Nat) (g : Gathered) : Prop := s.program.left g.visited ≤ left

variable {s} {left : Nat} {pull pull' : Pull → Gathering Unit}

theorem ask_same {P : Gathered → Prop} {α β : Type} {answer : Except ProgramError α}
    {f f' : α → Gathering β} (rest : ∀ a, answer = .ok a → Same P (f a) (f' a)) :
    Same P (ask answer >>= f) (ask answer >>= f') := by
  cases answer with
  | ok a =>
    rw [ask, pure_bind, pure_bind]
    exact rest a rfl
  | error e =>
    refine fun g _ => ⟨rfl, ?_⟩
    rintro a g' ⟨⟩

theorem capture_same (n : Name) (var : Option DeclId) (info : Info) :
    Same (s.Left left) (s.capture n var info) (s.capture n var info) :=
  .of_keeps (s.capture_keeps (fun _ before _ _ => before) trivial)

section Visit

variable (follows : ∀ q, Same (s.Left left) (pull q) (pull' q))
include follows

theorem useName_same (n : Name) (origin : Origin) :
    Same (s.Left left) (s.useName pull n origin) (s.useName pull' n origin) := by
  unfold useName
  split
  · exact .of_keeps (.pure _)
  · split
    · exact capture_same _ _ _
    · exact .of_keeps (.pure _)
    · exact .of_keeps (.pure _)
    · exact follows _
    · exact .of_keeps (.throw trivial)

theorem useMember_same (n : Name) (chain : List DeclId) :
    Same (s.Left left) (s.useMember pull n chain) (s.useMember pull' n chain) := by
  refine ask_same fun found _ => ?_
  cases found with
  | some m => exact follows _
  | none => exact .of_keeps (.pure _)

/-- One case per kind of reference. -/
theorem visit_same (cls : Option DeclId) (origin : Origin) (r : Reference) :
    Same (s.Left left) (s.visit pull cls origin r) (s.visit pull' cls origin r) := by
  cases r with
  | name n => exact useName_same follows n origin
  | callee n d =>
    simp only [visit]
    split
    · exact useName_same follows n origin
    · exact follows _
  | receiver =>
    cases origin with
    | own => exact .of_keeps (.modify fun _ before => before)
    | pulled site => exact .of_keeps (.pure _)
  | member n =>
    cases cls with
    | some c => exact ask_same fun chain _ => useMember_same follows n chain
    | none => exact .of_keeps (.pure _)
  | parentMember n =>
    cases cls with
    | some c => exact ask_same fun chain _ => useMember_same follows n _
    | none => exact .of_keeps (.pure _)
  | parentConstructor =>
    cases cls with
    | some c =>
      refine ask_same fun decl _ => ?_
      split
      · exact follows _
      · exact .of_keeps (.pure _)
    | none => exact .of_keeps (.pure _)
  | construct c => exact follows _

theorem visitBody_same (cls : Option DeclId) (subject : Subject) :
    Same (s.Left left) (s.visitBody pull cls subject) (s.visitBody pull' cls subject) :=
  ask_same fun free _ => .forM (visit_same follows cls _) free.refs

theorem takeOver_same (e : Environment) :
    Same (s.Left left) (s.takeOver pull e) (s.takeOver pull' e) := by
  refine .forM (fun c => ?_) _
  split
  · exact capture_same _ _ _
  · exact useName_same follows _ _

theorem follow_same (d : DeclId) (f : FunctionDecl) :
    Same (s.Left left) (s.follow pull d f) (s.follow pull' d f) := by
  unfold follow
  split
  · cases s.work.registry.env? _ with
    | none => exact .of_keeps (.pure _)
    | some e => exact takeOver_same follows e
  · exact visitBody_same follows _ _

end Visit

/-- What comes after a first mark: if the declaration is there, fewer are left; if not, it fails. -/
theorem mark_same {d : DeclId} {m m' : Gathering Unit}
    (known : d.raw < s.program.decls.size → ∀ fewer < left, Same (s.Left fewer) m m')
    (unknown : ¬ d.raw < s.program.decls.size → ∃ cause, ∀ g, m.run g = .error cause ∧
      m'.run g = .error cause) :
    Same (s.Left left) (do if ← mark d then m) (do if ← mark d then m') := by
  intro g before
  by_cases seen : d ∈ g.visited
  · have marked (k : Gathering Unit) : StateT.run (do if ← mark d then k) g = .ok (⟨⟩, g) := by
      simp [mark, seen]
      rfl
    rw [marked, marked]
    constructor
    · rfl
    · rintro a g' ⟨⟩
      exact before
  · have marked (k : Gathering Unit) : StateT.run (do if ← mark d then k) g =
        k.run { g with visited := d :: g.visited } := by
      simp [mark, seen]
    rw [marked, marked]
    by_cases inside : d.raw < s.program.decls.size
    · have fewer := Nat.lt_of_lt_of_le (s.program.left_cons_lt inside seen) before
      obtain ⟨same, keeps⟩ := known inside _ fewer { g with visited :=
        d :: g.visited } (Nat.le_refl _)
      exact ⟨same, fun a g' ran => Nat.le_trans (keeps a g' ran) (Nat.le_of_lt fewer)⟩
    · obtain ⟨cause, fails⟩ := unknown inside
      rw [(fails _).1, (fails _).2]
      constructor
      · rfl
      · rintro a g' ⟨⟩

theorem function_error {p : Program} {d : DeclId} (unknown : ¬ d.raw < p.decls.size) :
    p.function d = .error (.dangling d) := by
  simp [Program.function, Program.decl, unknown, Bind.bind, Except.bind]

theorem constructorOf_error {p : Program} {c : DeclId} (unknown : ¬ c.raw < p.decls.size) :
    p.constructorOf c = .error (.dangling c) := by
  simp [Program.constructorOf, Program.ownFunctions, Program.members,
    Program.classDecl, Program.decl,
    unknown, Bind.bind, Except.bind]

/-- By induction on the depth. -/
theorem pullAt_same {depth depth' : Nat} {q : Pull} (enough : q.steps left ≤ depth)
    (enough' : q.steps left ≤ depth') :
    Same (s.Left left) (s.pullAt depth q) (s.pullAt depth' q) := by
  induction depth generalizing depth' q left with
  | zero => cases q <;> simp [Pull.steps] at enough
  | succ depth ih =>
    obtain ⟨depth', rfl⟩ : ∃ k, depth' = k + 1 := by
      refine ⟨depth' - 1, ?_⟩
      cases q <;> simp only [Pull.steps] at enough' <;> omega
    have onward {fewer : Nat} (lt : fewer < left) (q' : Pull) :
        Same (s.Left fewer) (s.pullAt depth q') (s.pullAt depth' q') := by
      refine ih ?_ ?_ <;> cases q <;> cases q' <;>
        simp only [Pull.steps] at enough enough' ⊢ <;> omega
    cases q with
    | function d =>
      refine mark_same (fun _ fewer lt => ask_same fun f _ => ?_) fun unknown => ?_
      · split
        · exact follow_same (onward lt) d f
        · exact .of_keeps (.pure _)
      · rw [function_error unknown]
        exact ⟨_, fun g => ⟨rfl, rfl⟩⟩
    | construct c =>
      refine ask_same fun ctor answer => ?_
      cases ctor with
      | some ctor =>
        refine ih ?_ ?_ <;> simp only [Pull.steps] at enough enough' ⊢ <;> omega
      | none =>
        refine mark_same (fun _ fewer lt => visitBody_same (onward lt) _ _) fun unknown => ?_
        rw [constructorOf_error unknown] at answer
        cases answer

/-- Following calls deeper than the search does changes nothing. -/
theorem gatherWithin_eq {depth : Nat} (enough : s.depth ≤ depth) (owner : DeclId)
    (cls : Option DeclId) : s.gatherWithin depth owner cls = s.gather owner cls := by
  have follows (q : Pull) : Same (s.Left s.program.decls.size) (s.pullAt depth q)
      (s.pullAt s.depth q) := by
    have fits : q.steps s.program.decls.size ≤ s.depth := by
      cases q <;> simp only [Pull.steps, Survey.depth] <;> omega
    exact pullAt_same (Nat.le_trans fits enough) fits
  have visits := Same.forM (visit_same follows cls .own) s.free.refs
  rw [gather_eq, gatherWithin, gatherWithin, (visits _ (s.program.left_le _)).1]

end Survey

end ShapeCompiler
