import ShapeCompiler.Proofs.AmbientCalls

/-!
# Parts of a body, and runs through them

The code for a part of a program is written once, and a run may come to it many times, each time
with other values of the variables. So what is known of the place in the body is kept apart from
what is known of a run that visits it.

* `Setting`: a compilation, the end it comes to, and a world in which the module runs;
* `Setting.Scene`: what is known of a place, and `Stage.Visits`: a run that is there;
* `Stage.Comes`: the run goes on to another place where the meaning has an end, and otherwise never
  has fuel enough;
* `Setting.Segment`: the code between two places, for all runs that visit the first one.

The code for a part that control never comes to is written all the same. That it could be visited
says enough about it (`Setting.Segment.possible`).
-/

namespace ShapeCompiler

open Source Code Work Machine
open Source.Program (AmbientCall)

/-- What is logged by some calls, one after the other. -/
def Source.Program.AmbientCall.entries (report : DeclId → List Scalar → List Entry)
    (calls : List AmbientCall) :
    List Entry := calls.flatMap fun c => report c.callee c.args

/-- A compilation, the state it ends with, and a world in which what was compiled runs, where
functions from outside log what they are called with. -/
structure Setting where
  setup : Setup
  fin : Work
  world : World
  report : DeclId → List Scalar → List Entry
  resolver : setup.resolver = .ambient
  types : world.types = fin.code.types
  distinct : (setup.program.ambients.map setup.program.declName).Nodup
  serves : ∀ d τs func fn, d ∈ setup.program.ambients → setup.program.Ambient d τs →
    fin.code.function? func = some fn → fn.name = setup.program.declName d →
    world.Serves func τs (report d)

variable {S : Setting} {x y z : Stage} {f f' f'' f₀ f₁ f₂ : Frame} {w w' w'' w₀ w₁ w₂ : Work}
  {Δ Δ' Δ₀ Δ₁ Δ₂ : Layout} {vars : Variables} {level : Nat}

/-! ## Places -/

/-- In a body for the statements at the top names refer to the places of the variables, and so many
blocks are around. -/
structure Setting.Scene (S : Setting) (level : Nat) (Δ : Layout) (f : Frame) (w : Work) : Prop where
  moment : Moment S.setup w
  later : Later S.setup w S.fin
  grounded : f.Grounded w
  plain : w.Plain S.setup
  describes : f.scope.Describes S.setup.program Δ
  isEntry : f.isEntry = true
  depth : f.depth = level
  below : ∀ e ∈ Δ, e.2.1.Below w.code.globals.size

/-- The run is at the place, and memory holds the values of the variables. -/
structure Stage.Visits (x : Stage) (S : Setting) (f : Frame) (w : Work) (Δ : Layout)
    (vars : Variables) :
    Prop where
  frame : x.frame = f
  work : x.work = w
  represents : x.point.Represents [] Δ vars
  upholds : x.memory.Upholds S.fin.code

namespace Setting.Scene

/-- The place is another one of the body. -/
theorem draft (h : S.Scene level Δ f w) (d : Draft) : S.Scene level Δ { f with draft := d } w :=
  { h with }

theorem of_draft (h : S.Scene level Δ f w) (same : f' = { f with draft := f'.draft }) :
    S.Scene level Δ f' w := same ▸ h.draft _

theorem ready (h : S.Scene level Δ f w) (visits : x.Visits S f w Δ vars) :
    x.Ready S.setup S.world Δ := by
  obtain ⟨rfl, rfl, -, -⟩ := visits
  refine ⟨h.moment, ?_, h.describes⟩
  rw [S.types]
  exact h.later.extends.code.types

/-- What was compiled goes on to the end. -/
theorem between {m : Emit Unit} (h : S.Scene level Δ f w) (walks : Emit.Walks S.setup m)
    (ran : m f S.setup w = .ok ((), f') w') :
    Moment S.setup w' ∧ f'.Grounded w' ∧ Later S.setup w w' := by
  obtain ⟨there, onward⟩ := (walks.ends h.moment h.grounded).of_ok (a := ((), f')) ran
  exact ⟨h.moment.later there.later, onward.grounded, there.later⟩

end Setting.Scene

namespace Stage

/-- The stage with another frame and another state of the compilation, in the same block or another
one. -/
def placed (x : Stage) (f : Frame) (w : Work) (b : BlockId) (isOpen : f.draft.Open b) : Stage :=
  ⟨w, f, x.values, x.memory, b, isOpen⟩

theorem point_placed (x : Stage) {isOpen : f.draft.Open x.place} (same : f.draft = x.frame.draft) :
    (x.placed f w x.place isOpen).point = x.point := by
  obtain ⟨draft, _⟩ := f
  cases same
  rfl

namespace Visits

/-- A run that is somewhere else, where nothing has happened. -/
theorem placed {b : BlockId} (h : x.Visits S f w Δ vars) (f' : Frame) (isOpen : f'.draft.Open b)
    (more : f.draft.Extends f'.draft) (w' : Work) :
    (x.placed f' w' b isOpen).Visits S f' w' Δ vars := by
  refine ⟨rfl, rfl, h.represents.moved rfl rfl fun e here =>
    (h.represents.inside e here).mono ?_, h.upholds⟩
  have size := more.size_le
  rw [← h.frame] at size
  exact size

theorem retains_placed {b : BlockId} (h : x.Visits S f w Δ vars) (isOpen : f'.draft.Open b)
    (more : f.draft.Extends f'.draft) (w' : Work) :
    x.point.Retains (x.placed f' w' b isOpen).point := by
  rw [← h.frame] at more
  exact ⟨more.size_le, fun _ _ => rfl⟩

theorem length_eq (h : x.Visits S f w Δ vars) : vars.length = Δ.length :=
    h.represents.each.length_eq.symm

end Visits

/-! ## Runs -/

/-- Where the meaning comes to an end with some calls and some values, the run comes to the second
place with these and has logged what goes with the calls. Where it comes to no end, the run never
has fuel enough. -/
structure Comes (x : Stage) (S : Setting) (f : Frame) (w : Work) (Δ : Layout)
    (E : List AmbientCall → Variables → Prop) : Prop where
  ends : ∀ calls vars, E calls vars → ∃ (z : Stage) (units : Nat), z.Visits S f w Δ vars ∧
    x.point.Advances S.world units (AmbientCall.entries S.report calls) z.point
  stuck : (¬∃ calls vars, E calls vars) → x.point.Starves S.world f.draft

namespace Comes

variable {E E' E₁ : List AmbientCall → Variables → Prop}
  {E₂ : Variables → List AmbientCall → Variables → Prop}

theorem congr (h : x.Comes S f w Δ E) (same : ∀ calls vars, E calls vars ↔ E' calls vars) :
    x.Comes S f w Δ E' := by
  obtain rfl : E = E' := funext fun calls => funext fun vars => propext (same calls vars)
  exact h

/-- The run is on its way to the first place. -/
theorem after {units : Nat} (h : y.Comes S f w Δ E)
    (first : x.point.Advances S.world units [] y.point)
    (grown : y.frame.draft.Extends f.draft) : x.Comes S f w Δ E where
  ends calls vars done := by
    obtain ⟨z, more, visits, advances⟩ := h.ends calls vars done
    exact ⟨z, units + more, visits, by simpa using first.trans advances⟩
  stuck never := first.starves grown (h.stuck never)

/-- The run goes on behind the second place. -/
theorem seq (h : x.Comes S f₁ w₁ Δ₁ E₁) (grown : f₁.draft.Extends f.draft)
    (next : ∀ (z : Stage) vars, z.Visits S f₁ w₁ Δ₁ vars → z.Comes S f w Δ (E₂ vars)) :
    x.Comes S f w Δ fun calls vars => ∃ c₁ v₁ c₂, E₁ c₁ v₁ ∧ E₂ v₁ c₂ vars ∧ calls = c₁ ++ c₂ where
  ends calls vars done := by
    obtain ⟨c₁, v₁, c₂, done₁, done₂, rfl⟩ := done
    obtain ⟨y, m, visits, advances⟩ := h.ends c₁ v₁ done₁
    obtain ⟨z, n, visits', advances'⟩ := (next y v₁ visits).ends c₂ vars done₂
    refine ⟨z, m + n, visits', ?_⟩
    rw [AmbientCall.entries, List.flatMap_append]
    exact advances.trans advances'
  stuck never := by
    by_cases first : ∃ c₁ v₁, E₁ c₁ v₁
    · obtain ⟨c₁, v₁, done₁⟩ := first
      obtain ⟨y, m, visits, advances⟩ := h.ends c₁ v₁ done₁
      have more : y.frame.draft.Extends f.draft := visits.frame ▸ grown
      refine advances.starves more ((next y v₁ visits).stuck ?_)
      rintro ⟨c₂, v₂, done₂⟩
      exact never ⟨_, v₂, c₁, v₁, c₂, done₁, done₂, rfl⟩
    · exact (h.stuck first).mono grown

/-- The meaning has cases, and one of them is the case. -/
theorem of_cases {ι : Type} {P : ι → Prop} {E : ι → List AmbientCall → Variables → Prop}
    (some : ∃ i, P i)
    (each : ∀ i, P i → x.Comes S f w Δ (E i)) :
    x.Comes S f w Δ fun calls vars => ∃ i, P i ∧ E i calls vars where
  ends calls vars done := by
    obtain ⟨i, isCase, done⟩ := done
    exact (each i isCase).ends calls vars done
  stuck never := by
    obtain ⟨i, isCase⟩ := some
    refine (each i isCase).stuck ?_
    rintro ⟨calls, vars, done⟩
    exact never ⟨calls, vars, i, isCase, done⟩

/-- The run goes on to another place, where nothing more happens. -/
theorem leave (h : x.Comes S f₁ w₁ Δ₁ E) (grown : f₁.draft.Extends f.draft)
    (next : ∀ (z : Stage) vars, z.Visits S f₁ w₁ Δ₁ vars → ∃ (z' : Stage) (units : Nat),
    z'.Visits S f w Δ vars ∧
      z.point.Advances S.world units [] z'.point) : x.Comes S f w Δ E where
  ends calls vars done := by
    obtain ⟨y, m, visits, advances⟩ := h.ends calls vars done
    obtain ⟨z, n, visits', advances'⟩ := next y vars visits
    exact ⟨z, m + n, visits', by simpa using advances.trans advances'⟩
  stuck never := (h.stuck never).mono grown

end Comes

end Stage

/-! ## Code between two places -/

namespace Setting

variable {E E' E₁ E₂ : Variables → List AmbientCall → Variables → Prop}

/-- The code between two places: blocks that wait go on waiting, some run could go through, and
every run that visits the first place goes on as the meaning says. -/
structure Segment (S : Setting) (Δ Δ' : Layout)
    (E : Variables → List AmbientCall → Variables → Prop)
    (f₀ : Frame) (w₀ : Work) (f : Frame) (w : Work) : Prop where
  grown : f₀.draft.Extends f.draft
  waits : ∀ b, f₀.draft.Waits b → f.draft.Waits b
  possible : ∀ (x : Stage) vars, x.Visits S f₀ w₀ Δ vars → ∃ (z : Stage) (vars' : Variables),
    z.Visits S f w Δ' vars' ∧
    x.point.Retains z.point
  comes : ∀ (x : Stage) vars, x.Visits S f₀ w₀ Δ vars → x.Comes S f w Δ' (E vars)

namespace Segment

theorem congr (h : S.Segment Δ Δ' E f₀ w₀ f w)
    (same : ∀ vars calls vars', E vars calls vars' ↔ E' vars calls vars') :
    S.Segment Δ Δ' E' f₀ w₀ f w := by
  obtain rfl : E = E' := funext fun vars => funext fun calls => funext fun vars' =>
    propext (same vars calls vars')
  exact h

theorem refl (f : Frame) (w : Work) :
    S.Segment Δ Δ (fun vars calls vars' => calls = [] ∧ vars' = vars) f w f w where
  grown := .refl _
  waits _ waits := waits
  possible x vars visits := ⟨x, vars, visits, Nat.le_refl _, fun _ _ => rfl⟩
  comes x vars visits :=
    { ends := by
        rintro _ _ ⟨rfl, rfl⟩
        exact ⟨x, 0, visits, .refl _⟩
      stuck := fun never => absurd ⟨[], vars, rfl, rfl⟩ never }

theorem trans (h : S.Segment Δ₀ Δ₁ E₁ f₀ w₀ f₁ w₁) (h' : S.Segment Δ₁ Δ₂ E₂ f₁ w₁ f₂ w₂) :
    S.Segment Δ₀ Δ₂ (fun vars calls vars' => ∃ c₁ v₁ c₂, E₁ vars c₁ v₁ ∧ E₂ v₁ c₂ vars' ∧
    calls = c₁ ++ c₂)
      f₀ w₀ f₂ w₂ where
  grown := h.grown.trans h'.grown
  waits b waits := h'.waits b (h.waits b waits)
  possible x vars visits := by
    obtain ⟨y, vars₁, visits₁, retains₁⟩ := h.possible x vars visits
    obtain ⟨z, vars₂, visits₂, retains₂⟩ := h'.possible y vars₁ visits₁
    exact ⟨z, vars₂, visits₂, retains₁.trans retains₂⟩
  comes x vars visits := (h.comes x vars visits).seq h'.grown fun z vars => h'.comes z vars

/-- Code that always comes to an end. -/
theorem of_total (visited : ∃ (x : Stage) (vars : Variables), x.Visits S f₀ w₀ Δ vars)
    (total : ∀ (x : Stage) vars, x.Visits S f₀ w₀ Δ vars → ∃ calls vars', E vars calls vars')
    (each : ∀ (x : Stage) vars calls vars', x.Visits S f₀ w₀ Δ vars → E vars calls vars' →
      ∃ z : Stage, z.Visits S f w Δ' vars' ∧ x.Reports S.world
      (AmbientCall.entries S.report calls) z) :
    S.Segment Δ Δ' E f₀ w₀ f w := by
  have some (x : Stage) (vars) (visits : x.Visits S f₀ w₀ Δ vars) :
    ∃ (z : Stage) (vars' : Variables) (log : List Entry),
      z.Visits S f w Δ' vars' ∧ x.Reports S.world log z := by
    obtain ⟨calls, vars', done⟩ := total x vars visits
    obtain ⟨z, visits', reports⟩ := each x vars calls vars' visits done
    exact ⟨z, vars', _, visits', reports⟩
  obtain ⟨x, vars, visits⟩ := visited
  obtain ⟨z, vars', log, visits', reports⟩ := some x vars visits
  refine ⟨?_, ?_, fun x vars visits => ?_, fun x vars visits =>
    ⟨fun calls vars' done => ?_, fun never => ?_⟩⟩
  · rw [← visits.frame, ← visits'.frame]
    exact reports.grown
  · rw [← visits.frame, ← visits'.frame]
    exact reports.waits
  · obtain ⟨z, vars', log, visits', reports⟩ := some x vars visits
    exact ⟨z, vars', visits', reports.retains⟩
  · obtain ⟨z, visits', reports⟩ := each x vars calls vars' visits done
    obtain ⟨units, advances⟩ := reports.point
    exact ⟨z, units, visits', advances⟩
  · obtain ⟨calls, vars', done⟩ := total x vars visits
    exact absurd ⟨calls, vars', done⟩ never

/-- In a block of their own statements are compiled with other blocks around, and variables that are
new are left behind. -/
theorem nested {inner : Layout} (h : S.Segment Δ (inner ++ Δ) E f₁ w₀ f₂ w)
    (before : f₁.draft = f₀.draft)
    (behind : f.draft = f₂.draft) : S.Segment Δ Δ
      (fun vars calls vars' => ∃ inside, E vars calls inside ∧ vars' = inside.leave vars) f₀ w₀ f
      w := by
  have enters (x : Stage) (vars) (visits : x.Visits S f₀ w₀ Δ vars) :
      ∃ y : Stage, y.point = x.point ∧ y.Visits S f₁ w₀ Δ vars := by
    obtain ⟨rfl, rfl, represents, upholds⟩ := visits
    have same : (x.placed f₁ x.work x.place (before ▸ x.isOpen)).point = x.point :=
      x.point_placed before
    exact ⟨_, same, rfl, rfl, same ▸ represents, upholds⟩
  have leaves (z : Stage) (vars vars' : Variables) (length : vars.length = Δ.length)
    (visits : z.Visits S f₂ w (inner ++ Δ) vars') :
      ∃ y : Stage, y.point = z.point ∧ y.Visits S f w Δ (vars'.leave vars) := by
    obtain ⟨rfl, rfl, represents, upholds⟩ := visits
    have same : (z.placed f z.work z.place (behind ▸ z.isOpen)).point = z.point :=
      z.point_placed behind
    exact ⟨_, same, rfl, rfl, same ▸ represents.leave length, upholds⟩
  refine ⟨?_, ?_, fun x vars visits => ?_, fun x vars visits => ?_⟩
  · rw [← before, behind]
    exact h.grown
  · rw [← before, behind]
    exact h.waits
  · obtain ⟨y, same, visits₁⟩ := enters x vars visits
    obtain ⟨z, vars', visits₂, retains⟩ := h.possible y vars visits₁
    obtain ⟨z', same', visits'⟩ := leaves z vars vars' visits.length_eq visits₂
    exact ⟨z', _, visits', same' ▸ same ▸ retains⟩
  · obtain ⟨y, same, visits₁⟩ := enters x vars visits
    have comes := h.comes y vars visits₁
    refine ⟨?_, fun never => ?_⟩
    · rintro calls _ ⟨inside, done, rfl⟩
      obtain ⟨z, units, visits₂, advances⟩ := comes.ends calls inside done
      obtain ⟨z', same', visits'⟩ := leaves z vars inside visits.length_eq visits₂
      exact ⟨z', units, visits', same' ▸ same ▸ advances⟩
    · rw [behind]
      refine same ▸ comes.stuck ?_
      rintro ⟨calls, inside, done⟩
      exact never ⟨calls, _, inside, done, rfl⟩

end Segment

end Setting

end ShapeCompiler
