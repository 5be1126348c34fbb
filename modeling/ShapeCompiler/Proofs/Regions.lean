import ShapeCompiler.Proofs.Standing

/-!
# Code with branches

A part that branches opens blocks, leaves the block it stands in for some of them, and enters each
in turn. From a frame that stands:

* `Frame.Region`: which blocks were opened since, and which of them wait;
* `Frame.Active`: the body is written in a block that is open;
* `Frame.Paused`: the block was left, and one that waits is entered next.

Of every block that is opened, what was there at the start is promised.
-/

namespace ShapeCompiler

open Source Code Work

namespace Frame

/-- Where a frame is since it stood: blocks were opened, and some of them wait. If `exact`, only the
draft has changed. -/
structure Region (exact : Prop) (s : Setup) (w : Work) (f : Frame) (g : Sketch) (w' : Work)
    (f' : Frame) (g' : Sketch) (opened todo : List BlockId) : Prop where
  proceeds : Proceeds s w w'
  sound : w'.Sound s
  sameBody : f.SameBody f'
  scope : f'.scope = f.scope
  receiver : f'.receiver = f.receiver
  env : f'.env = f.env
  frame : exact → f' = { f with draft := f'.draft }
  grown : f.draft.Grown g f'.draft g'
  calls : f.CallsMore s w' f'
  fits : f'.draft.Fits g'
  pending : ∀ b, g'.pending b ↔ g.pending b ∨ b ∈ todo
  given : ∀ b ∈ opened, ∀ v, g'.given b v ↔ f.draft.Has g v
  fresh : ∀ b ∈ opened, f.draft.blocks.size ≤ b.raw ∧ b.raw < f'.draft.blocks.size
  known : ∀ b ∈ todo, b ∈ opened
  nodup : todo.Nodup

/-- The body goes on in a block that is open. -/
structure Active (exact : Prop) (s : Setup) (w : Work) (f : Frame) (g : Sketch) (w' : Work)
    (f' : Frame) (g' : Sketch) (opened todo : List BlockId) : Prop
    extends Region exact s w f g w' f' g' opened todo where
  isOpen : f'.draft.IsOpen
  keeps : ∀ v, f.draft.Has g v → f'.draft.Has g' v

/-- The block was left. -/
structure Paused (exact : Prop) (s : Setup) (w : Work) (f : Frame) (g : Sketch) (w' : Work)
    (f' : Frame) (g' : Sketch) (opened todo : List BlockId) : Prop
    extends Region exact s w f g w' f' g' opened todo where
  closed : f'.draft.isClosed = true

variable {exact : Prop} {s : Setup} {w w' w'' : Work} {f f' f'' : Frame} {g g' g'' : Sketch}
  {opened todo rest : List BlockId} {b : BlockId} {v : ValueId} {α β : Type} {fEnd : Frame}
  {wEnd : Work} {r : β}

theorem Region.later (h : Region exact s w f g w' f' g' opened todo) : Later s w w' :=
  h.proceeds.later

theorem Active.start (base : f.Stands s w g) : Active exact s w f g w f g [] [] where
  proceeds := .refl w
  sound := base.sound
  sameBody := .refl f
  scope := rfl
  receiver := rfl
  env := rfl
  frame := fun _ => rfl
  grown := .refl _ _
  calls := .refl f
  fits := base.fits
  pending := by simp
  given := by simp
  fresh := by simp
  known := by simp
  nodup := .nil
  isOpen := base.isOpen
  keeps := fun _ has => has

/-- What the frame refers to was there at the start, and still is. -/
theorem Active.stands (h : Active exact s w f g w' f' g' opened todo) (base : f.Stands s w g) :
    f'.Stands s w' g' where
  sound := h.sound
  grounded := (base.grounded.later h.later).of_env h.env
  declares := h.scope ▸ base.declares
  typed := h.scope ▸ base.typed.later h.later
  fits := h.fits
  isOpen := h.isOpen
  holds := fun v uses => h.keeps v (base.holds v (uses.of_same h.scope h.receiver h.env))

/-- One more block that waits. -/
theorem Active.block {k : BlockId → Emit β} (h : Active exact s w f g w' f' g' opened todo)
    (name : String) (ran : (liftM (Draft.block name) >>= k : Emit β) f' s w' = .ok (r, fEnd) wEnd) :
    ∃ b f'' g'', Active exact s w f g w' f'' g'' (b :: opened) (b :: todo) ∧
      (∀ v, f'.draft.Has g' v → f''.draft.Has g'' v) ∧ k b f'' s w' = .ok (r, fEnd) wEnd := by
  have added := h.fits.opened name (f.draft.Has g)
  have bound : ∀ b ∈ opened, b ≠ ⟨f'.draft.blocks.size⟩ := by
    rintro b inside rfl
    exact Nat.lt_irrefl _ (h.fresh _ inside).2
  obtain ⟨place, here⟩ := h.isOpen
  refine ⟨⟨f'.draft.blocks.size⟩, f'.wrote (Draft.block name), _,
    ⟨⟨h.proceeds, h.sound, h.sameBody.trans ⟨rfl, rfl, rfl, rfl⟩,
    h.scope, h.receiver, h.env, ?_, h.grown.trans added.grown,
    fun callee n calls => h.calls callee n (added.calls callee n calls), added.fits, ?_,
      ?_, ?_, ?_, ?_⟩,
    ⟨place, added.place place here⟩, fun v has => added.keeps v (h.keeps v has)⟩, added.keeps, ran⟩
  · intro isExact
    rw [wrote, h.frame isExact]
  · intro b
    rw [added.pending, h.pending, List.mem_cons]
    tauto
  · intro b inside v
    rcases List.mem_cons.mp inside with rfl | old
    · exact added.given v
    · rw [added.grown.given b (h.fresh b old).2]
      exact h.given b old v
  · intro b inside
    rcases List.mem_cons.mp inside with rfl | old
    · exact ⟨h.grown.blocks, added.inside⟩
    · exact ⟨(h.fresh b old).1, Nat.lt_of_lt_of_le (h.fresh b old).2 added.grown.blocks⟩
  · intro b waits
    rcases List.mem_cons.mp waits with rfl | old
    · exact List.mem_cons_self
    · exact List.mem_cons_of_mem _ (h.known b old)
  · exact List.nodup_cons.mpr ⟨fun waits => bound _ (h.known _ waits) rfl, h.nodup⟩

/-- The region goes on with a step that stays in the block. -/
theorem Active.onward (h : Active exact s w f g w' f' g' opened todo)
    (goes : Goes s w' f' g' w'' f'' g'') : Active exact s w f g w'' f'' g'' opened todo := by
  refine ⟨⟨h.proceeds.trans goes.proceeds, goes.sound, h.sameBody.trans goes.sameBody,
    goes.scope.trans h.scope, goes.receiver.trans h.receiver, goes.env.trans h.env, ?_,
    h.grown.trans goes.becomes.grown, h.calls.trans goes.proceeds.course goes.calls,
    goes.becomes.fits, ?_, ?_, ?_, h.known, h.nodup⟩, goes.becomes.isOpen,
    fun v has => goes.becomes.keeps v (h.keeps v has)⟩
  · intro isExact
    rw [goes.frame, h.frame isExact]
  · intro b
    rw [goes.becomes.pending]
    exact h.pending b
  · intro b inside v
    rw [goes.becomes.grown.given b (h.fresh b inside).2]
    exact h.given b inside v
  · intro b inside
    exact ⟨(h.fresh b inside).1, Nat.lt_of_lt_of_le (h.fresh b inside).2 goes.becomes.grown.blocks⟩

/-- A part that stays in the block. -/
theorem Active.last {m : Emit α} {U : ValueId → Prop} {gives : α → List ValueId} {a : α}
    (h : Active exact s w f g w' f' g' opened todo) (base : f.Stands s w g)
    (part : Emit.Sound s U m gives) (uses : ∀ v, U v → f'.draft.Has g' v)
    (ran : m f' s w' = .ok (a, f'') w'') :
    ∃ g'', Active exact s w f g w'' f'' g'' opened todo ∧ (∀ v ∈ gives a, f''.draft.Has g'' v) ∧
      ∀ v, f'.draft.Has g' v → f''.draft.Has g'' v := by
  obtain ⟨g'', goes, given⟩ := part.goes (h.stands base) uses ran
  exact ⟨g'', h.onward goes, given, goes.becomes.keeps⟩

/-- A part that stays in the block, and what follows it. -/
theorem Active.part {m : Emit α} {k : α → Emit β} {U : ValueId → Prop} {gives : α → List ValueId}
    (h : Active exact s w f g w' f' g' opened todo) (base : f.Stands s w g)
    (part : Emit.Sound s U m gives) (uses : ∀ v, U v → f'.draft.Has g' v)
    (ran : (m >>= k) f' s w' = .ok (r, fEnd) wEnd) :
    ∃ a f'' w'' g'', Active exact s w f g w'' f'' g'' opened todo ∧
      (∀ v ∈ gives a, f''.draft.Has g'' v) ∧ (∀ v, f'.draft.Has g' v → f''.draft.Has g'' v) ∧
      k a f'' s w'' = .ok (r, fEnd) wEnd := by
  obtain ⟨a, f'', w'', ran₁, ran₂⟩ := Emit.of_bind_ok ran
  obtain ⟨g'', active, given, keeps⟩ := h.last base part uses ran₁
  exact ⟨a, f'', w'', g'', active, given, keeps, ran₂⟩

/-- A block that was there before, and whose promise is kept. -/
def Meets (f : Frame) (g : Sketch) (b : BlockId) : Prop :=
  b.raw < f.draft.blocks.size ∧ ∀ v, g.given b v → f.draft.Has g v

/-- The block is left for blocks that were opened, or for some from before. -/
theorem Active.exit {k : Unit → Emit β} (h : Active exact s w f g w' f' g' opened todo)
    (base : f.Stands s w g) (e : Exit) (uses : ∀ v ∈ e.operands, f'.draft.Has g' v)
    (leads : ∀ t ∈ e.targets, t ∈ opened ∨ f.Meets g t)
    (ran : (liftM (Draft.close e) >>= k : Emit β) f' s w' = .ok (r, fEnd) wEnd) :
    ∃ f'', Paused exact s w f g w' f'' g' opened todo ∧ k ⟨⟩ f'' s w' = .ok (r, fEnd) wEnd := by
  have pauses := (h.stands base).close uses fun t isTarget => by
    rcases leads t isTarget with inside | ⟨there, meets⟩
    · exact ⟨(h.fresh t inside).2, fun v promised => h.keeps v ((h.given t inside v).mp promised)⟩
    · refine ⟨Nat.lt_of_lt_of_le there h.grown.blocks, fun v promised => h.keeps v (meets v ?_)⟩
      rwa [h.grown.given t there] at promised
  have size : (f'.wrote (Draft.close e)).draft.blocks.size = f'.draft.blocks.size := by
    obtain ⟨b, here⟩ := h.isOpen
    simp [wrote, here.close]
  refine ⟨f'.wrote (Draft.close e), ⟨⟨h.proceeds, h.sound, h.sameBody.trans ⟨rfl, rfl, rfl, rfl⟩,
    h.scope, h.receiver, h.env, ?_, ?_, ?_, pauses.fits, h.pending, h.given, ?_, h.known, h.nodup⟩,
    pauses.closed⟩, ran⟩
  · intro isExact
    rw [wrote, h.frame isExact]
  · exact ⟨h.grown.params, h.grown.given, size ▸ h.grown.blocks⟩
  · intro callee n calls
    obtain ⟨b, here⟩ := h.isOpen
    rw [wrote, here.close] at calls
    exact h.calls callee n (CallsIn.of_exit calls)
  · intro b inside
    exact size ▸ h.fresh b inside

/-- A block that waits is entered. -/
theorem Paused.enter {k : Unit → Emit β} (h : Paused exact s w f g w' f' g' opened todo)
    (base : f.Stands s w g) (next : todo.Perm (b :: rest))
    (ran : (liftM (Draft.moveTo b) >>= k : Emit β) f' s w' = .ok (r, fEnd) wEnd) :
    ∃ f'', Active exact s w f g w' f'' (g'.without b) opened rest ∧
      k ⟨⟩ f'' s w' = .ok (r, fEnd) wEnd := by
  have waits : b ∈ todo := next.mem_iff.mpr List.mem_cons_self
  have isPending : g'.pending b := (h.pending b).mpr (.inr waits)
  have pauses : f'.Pauses s w' g' :=
    ⟨h.sound, (base.grounded.later h.later).of_env h.env, h.scope ▸ base.declares,
      h.scope ▸ base.typed.later h.later, h.fits, h.closed⟩
  have inside := h.known b waits
  have stands := pauses.enter isPending fun v uses =>
    (h.given b inside v).mpr (base.holds v (uses.of_same h.scope h.receiver h.env))
  have others : (b :: rest).Nodup := next.nodup_iff.mp h.nodup
  have old : ¬ g.pending b := by
    intro isOld
    obtain ⟨_, name, there⟩ := base.fits.pending b isOld
    have := (Array.getElem?_eq_some_iff.mp there).1
    have := (h.fresh b inside).1
    omega
  refine ⟨f'.wrote (Draft.moveTo b), ⟨⟨h.proceeds, h.sound, h.sameBody.trans ⟨rfl, rfl, rfl, rfl⟩,
    h.scope, h.receiver, h.env, ?_, ?_, h.calls, stands.fits, ?_, h.given, h.fresh, ?_,
      others.of_cons⟩,
    stands.isOpen, ?_⟩, ran⟩
  · intro isExact
    rw [wrote, h.frame isExact]
  · exact ⟨h.grown.params, h.grown.given, h.grown.blocks⟩
  · intro b'
    have before : g'.pending b' ↔ g.pending b' ∨ b' = b ∨ b' ∈ rest := by
      rw [h.pending, next.mem_iff, List.mem_cons]
    have apart := (List.nodup_cons.mp others).1
    change g'.pending b' ∧ b' ≠ b ↔ _
    rw [before]
    constructor
    · tauto
    · rintro (isOld | waits')
      · refine ⟨.inl isOld, ?_⟩
        rintro rfl
        exact old isOld
      · refine ⟨.inr (.inr waits'), ?_⟩
        rintro rfl
        exact apart waits'
  · intro b' waits'
    exact h.known b' (next.mem_iff.mpr (List.mem_cons_of_mem _ waits'))
  · intro v has
    exact (pauses.has_enter isPending).mpr ((h.given b inside v).mpr has)

/-- Nothing waits: the region is over. -/
theorem Active.goes (h : Active True s w f g w' f' g' opened []) : Goes s w f g w' f' g' := by
  have pending : g'.pending = g.pending := by
    funext b
    have := h.pending b
    simpa using this
  exact ⟨h.proceeds, h.sound, h.frame trivial,
    ⟨h.grown, pending, h.fits, h.isOpen, h.keeps⟩, h.calls⟩

/-- A block from before goes on being one. -/
theorem Goes.meets (h : Goes s w f g w' f' g') (meets : f.Meets g b) : f'.Meets g' b := by
  refine ⟨Nat.lt_of_lt_of_le meets.1 h.becomes.grown.blocks, fun v promised => ?_⟩
  rw [h.becomes.grown.given b meets.1] at promised
  exact h.becomes.keeps v (meets.2 v promised)

theorem Active.flowed (h : Active exact s w f g w' f' g' opened []) (base : f.Stands s w g) :
    Flowed s w f g w' f' g' := by
  have pending : g'.pending = g.pending := by
    funext b
    have := h.pending b
    simpa using this
  exact ⟨h.proceeds, h.sound, h.sameBody, h.receiver, h.env, (h.stands base).declares,
    (h.stands base).typed, h.grown, h.calls, pending, h.fits,
      .inr ⟨h.isOpen, h.keeps, (h.stands base).holds⟩⟩

end Frame

namespace Emit

open ShapeCompiler.Frame

variable {s : Setup} {α : Type} {U : ValueId → Prop} {gives : α → List ValueId}

/-- Something is done on one of two ways, which then come together. -/
theorem Sound.detour {before aside : Emit PUnit} {after : Emit α} (name name' : String)
    (exit : BlockId → BlockId → Exit) (hBefore : Sound s U before fun _ => [])
    (operands : ∀ way done, ∀ v ∈ (exit way done).operands, U v)
    (targets : ∀ way done, ∀ t ∈ (exit way done).targets, t = way ∨ t = done)
    (hAside : Sound s U aside fun _ => []) (hAfter : Sound s U after gives) :
    Sound s U (do
      let way ← Draft.block name
      let done ← Draft.block name'
      before
      Draft.close (exit way done)
      Draft.moveTo way
      aside
      Draft.br done
      Draft.moveTo done
      after) gives := by
  refine ⟨fun {w w' f f' g a} base uses ran => ?_⟩
  have start : Active True s w f g w f g [] [] := .start base
  obtain ⟨way, f₁, g₁, h₁, _, ran₁⟩ := start.block name ran
  obtain ⟨done, f₂, g₂, h₂, _, ran₂⟩ := h₁.block name' ran₁
  obtain ⟨_, f₃, w₃, g₃, h₃, _, _, ran₃⟩ := h₂.part base hBefore
    (fun v used => h₂.keeps v (uses v used)) ran₂
  obtain ⟨f₄, h₄, ran₄⟩ := h₃.exit base (exit way done)
    (fun v used => h₃.keeps v (uses v (operands _ _ v used)))
    (fun t isTarget => by
      rcases targets _ _ t isTarget with rfl | rfl
      · exact .inl (by simp)
      · exact .inl (by simp)) ran₃
  obtain ⟨f₅, h₅, ran₅⟩ := h₄.enter base (.swap _ _ _) ran₄
  obtain ⟨_, f₆, w₆, g₆, h₆, _, _, ran₆⟩ := h₅.part base hAside
    (fun v used => h₅.keeps v (uses v used)) ran₅
  obtain ⟨f₇, h₇, ran₇⟩ := h₆.exit base (.br done) (by simp [Exit.operands])
    (by simp [Exit.targets]) ran₆
  obtain ⟨f₈, h₈, ran₈⟩ := h₇.enter base (.refl _) ran₇
  obtain ⟨g₉, h₉, given, _⟩ := h₈.last base hAfter (fun v used => h₈.keeps v (uses v used)) ran₈
  exact ⟨g₉, h₉.goes, given⟩

end Emit

end ShapeCompiler
