import ShapeCompiler.Proofs.Segments

/-!
# Jumps

Branches and loops open some blocks, leave the one they are in, and go on in others.

* `Draft.Exits`: what is known when three blocks were opened and one was left;
* `Stage.Visits.enters`, `Stage.Visits.exits`: a run that leaves a block is at the beginning of
  another one, which may be one where it has been before;
* `Setting.Test`: the code for a test, which ends with its truth value;
* `Setting.Adds`, `Setting.Keeps`: what the compiler writes is the code for a meaning, between two
  places where names refer to the variables in view.
-/

namespace ShapeCompiler

open Source Code Work Machine
open Source.Program (AmbientCall)

/-! ## Blocks -/

namespace Code.Draft

variable {d d' : Draft} {p b : BlockId} {e : Exit}

/-- One block is left, and others are new and wait. -/
structure Exits (d : Draft) (p : BlockId) (e : Exit) (news : List BlockId) (d' : Draft) : Prop where
  grown : (d.closed p e).Extends d'
  waits : ∀ b ∈ news, d'.Waits b
  nodup : news.Nodup
  others : ∀ c, d.Waits c → c ∉ news ∧ d'.Waits c

theorem Open.lt (isOpen : d.Open p) : p.raw < d.blocks.size := by
  obtain ⟨k, there, _⟩ := isOpen.block
  exact (Array.getElem?_eq_some_iff.mp there).1

theorem Open.waits_new (isOpen : d.Open p) (name : String) :
    (d.withBlock name).Waits ⟨d.blocks.size⟩ :=
  Draft.waits_new (fun _ here => Option.some.inj (isOpen.here.symm.trans here) ▸ isOpen.lt) name

theorem Open.closed_withBlock (isOpen : d.Open p) (e : Exit) (name : String) :
    (d.withBlock name).closed p e = (d.closed p e).withBlock name := by
  have inside := isOpen.lt
  have same : (d.withBlock name).closed p e =
      { d with blocks := (d.blocks.push ⟨name, #[], none⟩).modify p.raw fun k =>
        { k with exit := some e } } := rfl
  have blocks : (d.blocks.push ⟨name, #[], none⟩).modify p.raw
    (fun k => { k with exit := some e }) =
      (d.blocks.modify p.raw fun k => { k with exit := some e }).push ⟨name, #[], none⟩ := by
    refine Array.ext (by simp) fun i _ _ => ?_
    simp only [Array.getElem_modify, Array.getElem_push, Array.size_modify]
    split <;> split <;> first | rfl | omega
  rw [same, blocks]
  rfl

theorem Open.exits (isOpen : d.Open p) (e : Exit) (name name' name'' : String) :
    d.Exits p e [⟨d.blocks.size⟩, ⟨(d.withBlock name).blocks.size⟩,
        ⟨((d.withBlock name).withBlock name').blocks.size⟩]
      ((((d.withBlock name).withBlock name').withBlock name'').closed p e) := by
  have isOpen₁ := isOpen.withBlock name
  have isOpen₂ := isOpen₁.withBlock name'
  have isOpen₃ := isOpen₂.withBlock name''
  have size₁ : (d.withBlock name).blocks.size = d.blocks.size + 1 := Array.size_push _
  have size₂ : ((d.withBlock name).withBlock name').blocks.size =
      (d.withBlock name).blocks.size + 1 :=
    Array.size_push _
  refine ⟨?_, ?_, ?_, fun c waits => ⟨?_, ?_⟩⟩
  · rw [isOpen₂.closed_withBlock, isOpen₁.closed_withBlock, isOpen.closed_withBlock]
    exact ((extends_withBlock _ _).trans (extends_withBlock _ _)).trans (extends_withBlock _ _)
  · have waits₁ := ((isOpen.waits_new name).withBlock name').withBlock name''
    have waits₂ := (isOpen₁.waits_new name').withBlock name''
    have waits₃ := isOpen₂.waits_new name''
    simp only [List.forall_mem_cons]
    exact ⟨waits₁.closed isOpen₃ e, waits₂.closed isOpen₃ e, waits₃.closed isOpen₃ e, nofun⟩
  · simp [size₁, size₂, Nat.add_assoc]
  · have inside := waits.lt
    obtain ⟨c⟩ := c
    simp only [List.mem_cons, BlockId.mk.injEq, List.not_mem_nil, or_false] at inside ⊢
    omega
  · exact (((waits.withBlock name).withBlock name').withBlock name'').closed isOpen₃ e

end Code.Draft

namespace Emit

variable {s : Setup} {f f' : Frame} {w w' : Work} {p : BlockId} {α : Type} {r : α}

theorem close_bind (isOpen : f.draft.Open p) (e : Exit) (k : Emit α) :
    (do Draft.close e; k : Emit α) f s w = k { f with draft := f.draft.closed p e } s w := by
  rw [← isOpen.close_eq]
  rfl

/-- Three blocks are opened, and the one before is left. -/
theorem of_blocks_ok {name name' name'' : String} {e : BlockId → BlockId → BlockId → Exit}
    {k : BlockId → BlockId → BlockId → Emit α} (isOpen : f.draft.Open p)
    (ran : (do
      let t ← Draft.block name
      let u ← Draft.block name'
      let v ← Draft.block name''
      Draft.close (e t u v)
      k t u v : Emit α) f s w = .ok (r, f') w') :
    ∃ t u v d, f.draft.Exits p (e t u v) [t, u, v] d ∧ k t u v { f with draft := d } s w =
    .ok (r, f') w' := by
  let d := ((f.draft.withBlock name).withBlock name').withBlock name''
  have isOpen' : d.Open p := ((isOpen.withBlock name).withBlock name').withBlock name''
  refine ⟨⟨f.draft.blocks.size⟩, ⟨(f.draft.withBlock name).blocks.size⟩,
    ⟨((f.draft.withBlock name).withBlock name').blocks.size⟩, _,
      isOpen.exits _ name name' name'', ?_⟩
  rw [← isOpen'.close_eq]
  exact ran

end Emit

/-! ## Runs -/

variable {S : Setting} {x y : Stage} {f f' f₀ f₁ g : Frame} {w w' w₀ w₁ : Work} {Δ : Layout}
  {vars : Variables}
  {level : Nat} {d d' : Draft} {b p : BlockId} {e : Exit}

/-- The frame for the code at the beginning of a block that waits in the draft. -/
def Frame.moved (f : Frame) (d : Draft) (b : BlockId) : Frame := { f with draft := d.moved b }

namespace Stage

/-- The run is in the block that is written to. -/
theorem Visits.place (h : x.Visits S f w Δ vars) (isOpen : f.draft.Open p) : x.place = p :=
  (h.frame ▸ x.isOpen).unique isOpen

theorem Visits.isOpen (h : x.Visits S f w Δ vars) : f.draft.Open x.place := h.frame ▸ x.isOpen

/-- Variables are kept in values of the body that are older than the place. -/
theorem Visits.inside (h : x.Visits S f w Δ vars) : ∀ e ∈ Δ, e.2.1.Inside f.draft.values.size :=
  h.frame ▸ h.represents.inside

/-- The run leaves its block for the beginning of another one, which may be an older one. -/
theorem Visits.exits (h : x.Visits S f w Δ vars) (leads : e.LeadsTo x.values b)
    (grown : (f.draft.closed x.place e).Extends d) (waits : d'.Waits b)
    (inside : ∀ e ∈ Δ, e.2.1.Inside d'.values.size) (g : Frame) (w' : Work) :
    ∃ y : Stage, y.Visits S (g.moved d' b) w' Δ vars ∧ y.values = x.values ∧
      x.point.Reaches S.world d 0 [] y.point := by
  refine ⟨x.placed (g.moved d' b) w' b waits.opens,
    ⟨rfl, rfl, h.represents.moved rfl rfl inside, h.upholds⟩, rfl, ?_⟩
  rw [← h.frame] at grown
  exact .exit leads grown rfl rfl rfl (Point.written_entered waits)

/-- The run leaves its block for the beginning of one that waits. -/
theorem Visits.enters (h : x.Visits S f w Δ vars) (leads : e.LeadsTo x.values b)
    (grown : (f.draft.closed x.place e).Extends d) (waits : d.Waits b) (g : Frame) (w' : Work) :
    ∃ y : Stage, y.Visits S (g.moved d b) w' Δ vars ∧ y.values = x.values ∧
      x.point.Advances S.world 0 [] y.point := by
  have more : f.draft.Extends (g.moved d b).draft :=
    ((h.isOpen.extends_closed e).trans grown).trans (d.extends_moved b)
  refine ⟨x.placed (g.moved d b) w' b waits.opens, h.placed _ waits.opens more w', rfl, ?_⟩
  rw [← h.frame] at grown
  exact .enter leads grown waits

end Stage

/-- A run that comes back to a place and is at the end from there. -/
theorem Point.Advances.turn {W : World} {p p' p'' : Point} {i j : Nat} {log log' : List Entry}
    (h : p'.Advances W j log' p'') (same : p'.draft = p.draft) (retains : p.Retains p')
    (reaches : p.Reaches W p''.draft i log p') : p.Advances W (i + j) (log ++ log') p'' where
  grown := same ▸ h.grown
  kept v inside := by
    rw [h.kept v (Nat.lt_of_lt_of_le inside retains.size_le), retains.kept v inside]
  reaches := reaches.trans h.reaches

/-! ## Tests -/

/-- The code for a test, which is not empty: at its end it is known whether the scalar counts as
true. -/
structure Setting.Test (S : Setting) (Δ : Layout) (cond : ExprId) (c : ValueId)
    (f₀ : Frame) (w : Work)
    (f : Frame) : Prop where
  grown : f₀.draft.Extends f.draft
  waits : ∀ b, f₀.draft.Waits b → f.draft.Waits b
  comes : ∀ (x : Stage) vars v vars', x.Visits S f₀ w Δ vars →
    S.setup.program.Evaluates vars (S.setup.program.expr cond).kind v vars' →
    ∃ (z : Stage) (units : Nat), 0 < units ∧ z.Visits S f w Δ vars' ∧ z.values c = .bool v.truthy ∧
      x.point.Advances S.world units [] z.point

/-- Where a run may be, the types of the variables are known. -/
theorem Stage.Visits.evaluates {k : ExprKind} {τ : Prim} (h : x.Visits S f w Δ vars)
    (ofType : S.setup.program.HasType (Layout.typing Δ) k τ) :
    ∃ v vars', S.setup.program.Evaluates vars k v vars' :=
  Source.Program.Evaluates.exists ofType h.represents.typing

/-- What the compiler writes for a test. -/
theorem Setting.of_test_ok {cond : ExprId} {τ : Prim} {depth : Nat} {k : ValueId → Emit Unit}
    (scene : S.Scene level Δ f₀ w) (visits : x.Visits S f₀ w Δ vars)
    (ofType : S.setup.program.HasType (Layout.typing Δ) (S.setup.program.expr cond).kind τ)
    (ran : (do let c ← Emit.truthy (← (Lowering.ofDepth depth).expr cond); k c) f₀ S.setup w =
    .ok ((), f') w') :
    ∃ c f, S.Test Δ cond c f₀ w f ∧ S.Scene level Δ f w ∧ k c f S.setup w = .ok ((), f') w' := by
  obtain ⟨a, f₁, w₁, ran₁, rest₁⟩ := Emit.of_bind_ok ran
  obtain ⟨c, f, w₂, ran₂, rest₂⟩ := Emit.of_bind_ok rest₁
  have each (x : Stage) (vars v vars') (visits : x.Visits S f₀ w Δ vars)
      (gives : S.setup.program.Evaluates vars (S.setup.program.expr cond).kind v vars') :
      ∃ z : Stage, z.frame = f ∧ z.work = w₂ ∧ x.Follows S.world z ∧ x.Spends S.world z ∧
        z.point.Represents [] Δ vars' ∧ x.memory.Saves [] z.memory ∧ z.values c =
            .bool v.truthy := by
    have ready := scene.ready visits
    obtain ⟨rfl, rfl, represents, -⟩ := visits
    obtain ⟨y, rfl, rfl, follows, computes⟩ :=
      (Emit.exprKind_means ofType).at_level ready represents gives depth a f₁ w₁ ran₁
    obtain ⟨z, isFrame, isWork, follows', known, memory⟩ :=
      Emit.truthy_takes (ready.follows follows) computes.denotes c f w₂ ran₂
    refine ⟨z, isFrame, isWork, follows.trans follows', computes.spends.follows follows', ?_,
      ?_, known.value⟩
    · exact follows'.represents computes.represents (memory ▸ .refl _ _)
    · exact memory ▸ computes.saves
  have some (x : Stage) (vars) (visits : x.Visits S f₀ w Δ vars) :
      ∃ z : Stage, z.frame = f ∧ x.Follows S.world z := by
    obtain ⟨v, vars', gives⟩ := visits.evaluates ofType
    obtain ⟨z, isFrame, -, follows, -⟩ := each x vars v vars' visits gives
    exact ⟨z, isFrame, follows⟩
  obtain ⟨v, vars', gives⟩ := visits.evaluates ofType
  obtain ⟨z, isFrame, isWork, follows, -⟩ := each x vars v vars' visits gives
  obtain rfl : w₂ = w := isWork.symm.trans (follows.work.trans visits.work)
  have sameFrame : f = { f₀ with draft := f.draft } := by
    rw [← isFrame, ← visits.frame]
    exact follows.frame
  refine ⟨c, f, ⟨?_, ?_, fun x vars v vars' visits gives => ?_⟩, scene.of_draft sameFrame, rest₂⟩
  · rw [← isFrame, ← visits.frame]
    exact follows.reports.grown
  · rw [← isFrame, ← visits.frame]
    exact follows.waits
  · obtain ⟨z, isFrame, isWork, -, ⟨units, some, advances⟩, represents, saves, known⟩ :=
      each x vars v vars' visits gives
    exact ⟨z, units, some, ⟨isFrame, isWork, represents, saves.upholds _ visits.upholds⟩,
      known, advances⟩

/-! ## Code for a meaning -/

namespace Setting

/-- What the step writes is the code for the meaning, and behind it there are more variables. -/
def Adds (S : Setting) (level : Nat) (Δ : Layout) (Γ : Typing) (m : Emit Unit)
    (E : Variables → List AmbientCall → Variables → Prop) : Prop :=
  ∀ f₀ w₀ f w, S.Scene level Δ f₀ w₀ → (∃ (x : Stage) (vars : Variables), x.Visits S f₀ w₀ Δ vars) →
    m f₀ S.setup w₀ = .ok ((), f) w → Later S.setup w S.fin →
    ∃ inner, Layout.typing (inner ++ Δ) = Γ ∧ S.Scene level (inner ++ Δ) f w ∧
      S.Segment Δ (inner ++ Δ) E f₀ w₀ f w

/-- What the step writes is the code for the meaning, and behind it there are the same variables. -/
def Keeps (S : Setting) (level : Nat) (Δ : Layout) (m : Emit Unit)
    (E : Variables → List AmbientCall → Variables → Prop) : Prop :=
  ∀ f₀ w₀ f w, S.Scene level Δ f₀ w₀ → (∃ (x : Stage) (vars : Variables), x.Visits S f₀ w₀ Δ vars) →
    m f₀ S.setup w₀ = .ok ((), f) w → Later S.setup w S.fin →
    S.Scene level Δ f w ∧ S.Segment Δ Δ E f₀ w₀ f w

variable {Γ Γ' : Typing} {m : Emit Unit} {E E' : Variables → List AmbientCall → Variables → Prop}

theorem Keeps.adds (h : S.Keeps level Δ m E) : S.Adds level Δ (Layout.typing Δ) m E := by
  intro f₀ w₀ f w scene visited ran later
  exact ⟨[], rfl, h f₀ w₀ f w scene visited ran later⟩

/-- Something is compiled behind the code. -/
theorem between_ok {k : Emit Unit} (scene : S.Scene level Δ f₀ w₀) (walks : Emit.Walks S.setup m)
    (walks' : Emit.Walks S.setup k) (ran : (do m; k) f₀ S.setup w₀ = .ok ((), f) w)
    (later : Later S.setup w S.fin) : ∃ f₁ w₁, m f₀ S.setup w₀ = .ok ((), f₁) w₁ ∧
      Later S.setup w₁ S.fin ∧ k f₁ S.setup w₁ = .ok ((), f) w := by
  obtain ⟨_, f₁, w₁, ran₁, ran₂⟩ := Emit.of_bind_ok ran
  obtain ⟨moment, grounded, -⟩ := scene.between walks ran₁
  obtain ⟨there, -⟩ := (walks'.ends moment grounded).of_ok ran₂
  exact ⟨f₁, w₁, ran₁, there.later.trans later, ran₂⟩

/-- At the end of the code its block is left. -/
theorem Keeps.of_exit_ok {k : Emit Unit} (h : S.Keeps level Δ m E) (scene : S.Scene level Δ f₀ w₀)
    (visited : ∃ (x : Stage) (vars : Variables), x.Visits S f₀ w₀ Δ vars)
    (walks : Emit.Walks S.setup m)
    (walks' : Emit.Walks S.setup k)
    (ran : (do m; Emit.brUnlessClosed b; k) f₀ S.setup w₀ = .ok ((), f) w)
    (later : Later S.setup w S.fin) :
    ∃ f₁ w₁ p, S.Segment Δ Δ E f₀ w₀ f₁ w₁ ∧ S.Scene level Δ f₁ w₁ ∧ f₁.draft.Open p ∧
      k { f₁ with draft := f₁.draft.closed p (.br b) } S.setup w₁ = .ok ((), f) w := by
  have leaves : Emit.Walks S.setup (Emit.brUnlessClosed b) := Emit.brUnlessClosed_walks b
  obtain ⟨f₁, w₁, ran₁, later₁, rest⟩ := between_ok scene walks
    (.bind leaves fun _ => walks') ran later
  obtain ⟨scene₁, segment⟩ := h f₀ w₀ f₁ w₁ scene visited ran₁ later₁
  obtain ⟨x, vars, visits⟩ := visited
  obtain ⟨z, _, visits', -⟩ := segment.possible x vars visits
  have isOpen : f₁.draft.Open z.place := visits'.isOpen
  refine ⟨f₁, w₁, z.place, segment, scene₁, isOpen, ?_⟩
  obtain ⟨_, _, _, left, ran₂⟩ := Emit.of_bind_ok rest
  obtain ⟨_, _, _, asked, left⟩ := Emit.of_bind_ok left
  cases asked
  rw [isOpen.isClosed] at left
  cases left
  exact (Emit.close_bind isOpen _ k).symm.trans ran₂

end Setting

end ShapeCompiler
