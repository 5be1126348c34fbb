import ShapeCompiler.Proofs.CallSites
import ShapeCompiler.Proofs.Variables

/-!
# Expressions compute what they mean

Where memory holds the variables of a program, the code for an expression computes the scalar that
the expression gives, and leaves the variables as the expression does.

* `Emit.Takes`: where a step of the compiler succeeds, a run comes to what it leaves;
* `Stage.Denotes`: an operand for a scalar;
* `Emit.exprKind_means`: all expressions, by induction on their types.

The code for a side that may be left out is written whether or not control comes to it. So that it
can be said what it leaves, the side is evaluated in any case (`Program.Evaluates.exists`).
-/

namespace ShapeCompiler

open Source Code Work Machine

namespace Code.Writing.Does

variable {T : TypeTable → Prop} {p : Point}

theorem of_eq {α : Type} {m m' : Writing α} {Q : α → Point → Prop}
    (same : m.run p.draft = m'.run p.draft)
    (h : Does T p m' Q) : Does T p m Q := by
  obtain ⟨p', draft, goes, here⟩ := h
  exact ⟨p', same ▸ draft, goes, same ▸ here⟩

theorem binary {lhs rhs : ValueId} {op : Code.BinaryOp} {val : Value} (name : String)
    (result : binaryValue op (p.values lhs) (p.values rhs) = .ok val) :
    Does T p (Draft.binary op lhs rhs name) fun a p' =>
      p'.Knows a val ∧ p'.memory = p.memory ∧ p'.size = p.size + 1 := by
  have same : (Draft.binary op lhs rhs name).run p.draft = (Draft.defineBy
    (Draft.resultType (p.draft.valueType lhs) op) name (.binary · op lhs rhs)).run p.draft := rfl
  refine .of_eq same (.defineBy (fun _ _ _ r _ values memory => ?_) fun _ known memory size =>
    ⟨known, memory, size⟩)
  rw [← values] at result
  simp only [execInst, result]
  rw [← memory]
  rfl

theorem fneg {value : ValueId} {n : Float} (name : String) (isFloat : p.values value = .float n) :
    Does T p (Draft.fneg value name) fun a p' =>
      p'.Knows a (.float (-n)) ∧ p'.memory = p.memory ∧ p'.size = p.size + 1 := by
  refine .defineBy (fun _ _ _ r _ values memory => ?_) fun _ known memory size =>
    ⟨known, memory, size⟩
  rw [← values] at isFloat
  simp only [execInst, isFloat]
  rw [← memory]
  rfl

/-- A value that is defined takes an instruction. -/
theorem longer {ty : TyId} {name : String} {inst : ValueId → Inst} {Q : ValueId → Point → Prop}
    (h : Does T p (Draft.defineBy ty name inst) Q) :
    Does T p (Draft.defineBy ty name inst) fun a p' =>
      Q a p' ∧ p.draft.written p.place < p'.draft.written p.place := by
  obtain ⟨p', draft, goes, here⟩ := h
  refine ⟨p', draft, goes, here, ?_⟩
  have noted : ({ p.draft with values := p.draft.values.push ⟨ty, name⟩ } : Draft).Open p.place :=
    ⟨p.isOpen.here, p.isOpen.block⟩
  have written := noted.emit (inst ⟨p.size⟩)
  have isDraft : p'.draft = ((Draft.emit (inst ⟨p.size⟩)).run
      { p.draft with values := p.draft.values.push ⟨ty, name⟩ }).2 := draft
  obtain ⟨k, there, -⟩ := p.isOpen.block
  have there' : p'.draft.blocks[p.place.raw]? =
      some { k with insts := k.insts.push (inst ⟨p.size⟩) } := by
    simp [isDraft, written, Array.getElem?_modify, there]
  rw [Draft.written_eq there, Draft.written_eq there']
  simp

end Code.Writing.Does

/-! ## Places of a body -/

theorem Code.Draft.Waits.closed {d : Draft} {p b : BlockId} (h : d.Waits b)
    (isOpen : d.Open p) (e : Exit) :
    (d.closed p e).Waits b := h.modify (h.ne isOpen) _

/-- The block is left for one that waits. -/
theorem Point.Advances.enter {W : World} {p : Point} {e : Exit} {d : Draft} {b : BlockId}
    (leads : e.LeadsTo p.values b) (grown : (p.draft.closed p.place e).Extends d)
    (waits : d.Waits b) :
    p.Advances W 0 [] (p.entered d b waits) where
  grown := ((p.isOpen.extends_closed e).trans grown).trans (d.extends_moved b)
  kept _ _ := rfl
  reaches := .exit leads (grown.trans (d.extends_moved b)) rfl rfl rfl (written_entered waits)

namespace Stage

variable {W : World} {s : Setup} {x x' x'' : Stage} {b : BlockId}

/-- The stage in another block, which waits in the draft. -/
def entered (x : Stage) (d : Draft) (b : BlockId) (waits : d.Waits b) : Stage :=
  ⟨x.work, { x.frame with draft := d.moved b }, x.values, x.memory, b, waits.opens⟩

/-- The compiler goes on with the body, where all else stays, and a run that is at the first stage
comes to the second one. -/
structure Follows (W : World) (x x' : Stage) : Prop where
  work : x'.work = x.work
  frame : x'.frame = { x.frame with draft := x'.frame.draft }
  waits : ∀ b, x.Waits b → x'.Waits b
  point : ∃ units, x.point.Advances W units [] x'.point

/-- On the way to the second stage the run spends fuel. -/
def Spends (W : World) (x x' : Stage) : Prop :=
    ∃ units, 0 < units ∧ x.point.Advances W units [] x'.point

namespace Follows

theorem refl (x : Stage) : x.Follows W x := ⟨rfl, rfl, fun _ waits => waits, 0, .refl _⟩

theorem trans (h : x.Follows W x') (h' : x'.Follows W x'') : x.Follows W x'' := by
  obtain ⟨_, advances⟩ := h.point
  obtain ⟨_, advances'⟩ := h'.point
  refine ⟨h'.work.trans h.work, ?_, fun b waits =>
    h'.waits b (h.waits b waits), _, advances.trans advances'⟩
  rw [h'.frame, h.frame]

theorem spends (h : x.Follows W x') (spends : x'.Spends W x'') : x.Spends W x'' := by
  obtain ⟨m, advances⟩ := h.point
  obtain ⟨n, some, advances'⟩ := spends
  exact ⟨m + n, by omega, advances.trans advances'⟩

theorem retains (h : x.Follows W x') : x.point.Retains x'.point :=
    h.point.elim fun _ advances => advances.retains

theorem knows {v : ValueId} {val : Value} (h : x.Follows W x') (known : x.Knows v val) :
    x'.Knows v val :=
  h.point.elim fun _ advances => advances.knows known

theorem of_goes (h : x.Goes s x') (work : x'.work = x.work) (admitted : x.Admits W.types) :
    x.Follows W x' := by
  obtain ⟨units, advances, _⟩ := Point.Advances.of_goes (W := W) h.point
    (show x'.Admits W.types by rwa [Admits, work])
  exact ⟨work, h.frame, fun b waits => h.waits waits, units, advances⟩

end Follows

theorem advances_withBlock (x : Stage) (name : String) :
    x.point.Advances W 0 [] (x.withBlock name).point :=
  ⟨Draft.extends_withBlock _ _, fun _ _ => rfl,
    .of_same rfl rfl rfl (x.point.written_withBlock name)⟩

/-- The second stage is somewhere else in the body, where nothing has happened since the first. -/
structure Beside (x x' : Stage) : Prop where
  work : x'.work = x.work
  frame : x'.frame = { x.frame with draft := x'.frame.draft }
  memory : x'.memory = x.memory
  retains : x.point.Retains x'.point

theorem Spends.follows (h : x.Spends W x') (follows : x'.Follows W x'') : x.Spends W x'' := by
  obtain ⟨m, some, advances⟩ := h
  obtain ⟨n, advances'⟩ := follows.point
  exact ⟨m + n, by omega, advances.trans advances'⟩

end Stage

/-! ## Steps of the compiler -/

namespace Emit

variable {W : World} {s : Setup} {x : Stage} {α β : Type}

/-- Where the step succeeds, it leads to a stage with the property. -/
def Takes (s : Setup) (W : World) (x : Stage) (m : Emit α) (Q : α → Stage → Prop) : Prop :=
  ∀ a f w, m x.frame s x.work = .ok (a, f) w →
    ∃ x' : Stage, x'.frame = f ∧ x'.work = w ∧ x.Follows W x' ∧ Q a x'

/-- The block is left for one that waits, where the code goes on. -/
theorem leave_apply (x : Stage) (e : Exit) {b : BlockId} (waits : x.Waits b) (k : Emit α) :
    (do Draft.close e; Draft.moveTo b; k : Emit α) x.frame s x.work =
      k (x.entered _ b (waits.closed x.isOpen e)).frame s x.work := by
  change k { x.frame with draft := ((Draft.close e).run x.frame.draft).2.moved b } s x.work = _
  rw [x.isOpen.close_eq e]
  rfl

namespace Takes

theorem pure {a : α} {Q : α → Stage → Prop} (h : Q a x) : Takes s W x (Pure.pure a) Q := by
  intro a f w ran
  cases ran
  exact ⟨x, rfl, rfl, .refl x, h⟩

theorem bind {m : Emit α} {k : α → Emit β} {Q : α → Stage → Prop} {R : β → Stage → Prop}
    (first : Takes s W x m Q) (rest : ∀ a x', x.Follows W x' → Q a x' → Takes s W x' (k a) R) :
    Takes s W x (m >>= k) R := by
  intro b f w ran
  obtain ⟨a, f₁, w₁, ran₁, ran₂⟩ := of_bind_ok ran
  obtain ⟨x₁, rfl, rfl, follows₁, here₁⟩ := first a f₁ w₁ ran₁
  obtain ⟨x₂, isFrame, isWork, follows₂, here₂⟩ := rest a x₁ follows₁ here₁ b f w ran₂
  exact ⟨x₂, isFrame, isWork, follows₁.trans follows₂, here₂⟩

theorem mono {m : Emit α} {Q R : α → Stage → Prop} (h : Takes s W x m Q)
    (weaker : ∀ a x', x.Follows W x' → Q a x' → R a x') : Takes s W x m R := by
  intro a f w ran
  obtain ⟨x', isFrame, isWork, follows, here⟩ := h a f w ran
  exact ⟨x', isFrame, isWork, follows, weaker a x' follows here⟩

theorem discard {m : Emit α} {Q : Stage → Prop} (h : Takes s W x m fun _ => Q) :
    Takes s W x (Functor.discard m) fun _ => Q := h.bind fun _ _ _ here => .pure here

theorem fails {m : Emit α} {Q : α → Stage → Prop} {e : Failure} {w : Work}
    (ran : m x.frame s x.work = .error e w) : Takes s W x m Q := by
  intro a f w' ran'
  cases ran.symm.trans ran'

/-- The step is another one in disguise. -/
theorem of_eq {m m' : Emit α} {Q : α → Stage → Prop}
    (same : m x.frame s x.work = m' x.frame s x.work)
    (h : Takes s W x m' Q) : Takes s W x m Q := fun a f w ran => h a f w (same.symm.trans ran)

theorem text (n : Name) :
    Takes s W x (liftM (Compile.text n)) fun t x' => t = s.program.text n ∧ x' = x := by
  intro t f w ran
  cases ran
  exact ⟨x, rfl, rfl, .refl x, rfl, rfl⟩

theorem of_achieves {m : Emit α} {Q : α → Stage → Prop} (h : Achieves s x m Q)
    (work : ∀ a x', Q a x' → x'.work = x.work) (admitted : x.Admits W.types) : Takes s W x m Q := by
  intro a f w ran
  obtain ⟨a', x', ran', goes, here⟩ := h
  cases ran'.symm.trans ran
  exact ⟨x', rfl, rfl, .of_goes goes (work _ _ here) admitted, here⟩

theorem of_does {m : Emit α} {Q : α → Stage → Prop} (h : Does s x m Q)
    (work : ∀ a x', Q a x' → x'.work = x.work) (admitted : x.Admits W.types) : Takes s W x m Q := by
  intro a f w ran
  obtain ⟨x', isFrame, isWork, goes, here⟩ := h a f w ran
  exact ⟨x', isFrame, isWork, .of_goes goes (work _ _ here) admitted, here⟩

theorem write {step : Writing α} {Q : α → Point → Prop} {R : α → Stage → Prop}
    (admitted : x.Admits W.types)
    (does : Writing.Does x.Admits x.point step Q)
    (h : ∀ a p, x.point.Goes x.Admits p → Q a p → R a (x.moved p)) :
    Takes s W x (liftM step) R := by
  intro a f w ran
  obtain ⟨x', isFrame, isWork, goes, here⟩ := Does.write does
    (R := fun a x' => x'.work = x.work ∧ R a x')
      (fun a p goes here => ⟨rfl, h a p goes here⟩) a f w ran
  exact ⟨x', isFrame, isWork, .of_goes goes here.1 admitted, here.2⟩

/-- A step of writing that gives a value and leaves memory as it is. -/
theorem gives {step : Writing ValueId} {val : Value} (admitted : x.Admits W.types)
    (does : Writing.Does x.Admits x.point step fun a p =>
      p.Knows a val ∧ p.memory = x.memory ∧ p.size = x.size + 1) :
    Takes s W x (liftM step) fun a x' => x'.Knows a val ∧ x'.memory = x.memory :=
  .write admitted does fun _ _ _ ⟨known, memory, _⟩ => ⟨known, memory⟩

/-- It costs something to define a value. -/
theorem define {ty : TyId} {name : String} {inst : ValueId → Inst} {val : Value}
    (admitted : x.Admits W.types)
    (does : Writing.Does x.Admits x.point (Draft.defineBy ty name inst) fun a p =>
      p.Knows a val ∧ p.memory = x.memory ∧ p.size = x.size + 1) :
    Takes s W x (liftM (Draft.defineBy ty name inst)) fun a x' =>
      x.Spends W x' ∧ x'.Knows a val ∧ x'.memory = x.memory := by
  refine .write admitted does.longer fun a p goes ⟨⟨known, memory, _⟩, longer⟩ =>
    ⟨?_, known, memory⟩
  obtain ⟨units, advances, some⟩ := Point.Advances.of_goes (W := W) goes admitted
  exact ⟨units, some longer, advances⟩

theorem store {value ptr : ValueId} {mem : Memory} (admitted : x.Admits W.types)
    (stored : x.memory.store (x.values ptr) (x.values value) = .ok mem) :
    Takes s W x (liftM (Draft.store value ptr)) fun _ x' =>
    x'.values = x.values ∧ x'.memory = mem :=
  .write admitted (.store (p := x.point) stored) fun _ _ _ ⟨values, memory, _⟩ => ⟨values, memory⟩

/-- What goes on at a stage that has been reached. -/
theorem behind {y : Stage} {k : Emit α} {Q : α → Stage → Prop} {a : α} {f : Frame} {w : Work}
    (reached : x.Follows W y) (rest : Takes s W y k Q) (ran : k y.frame s y.work = .ok (a, f) w) :
    ∃ z : Stage, z.frame = f ∧ z.work = w ∧ x.Follows W z ∧ Q a z := by
  obtain ⟨z, isFrame, isWork, follows, here⟩ := rest a f w ran
  exact ⟨z, isFrame, isWork, reached.trans follows, here⟩

/-- Two blocks are opened, and code is written into the first, from where control goes to the
second. Whether control comes to the first at all is up to the exit. -/
theorem aside {name name' : String} {e : BlockId → BlockId → Exit} {m : Emit PUnit} {k : Emit α}
    {P : Stage → Prop} {Q : α → Stage → Prop} (goesOn : Bool)
    (leads : ∀ t b, (e t b).LeadsTo x.values (if goesOn then t else b))
    (passed : goesOn = false → P x)
    (side : ∀ y, x.Beside y → Takes s W y m fun _ y' => goesOn = true → P y')
    (rest : ∀ y z, P y → y.point.Retains z.point → z.memory = y.memory → x.Follows W z →
    Takes s W z k Q) :
    Takes s W x (do
      let t ← Draft.block name
      let b ← Draft.block name'
      Draft.close (e t b)
      Draft.moveTo t
      m
      Draft.br b
      Draft.moveTo b
      k) Q := by
  intro a f w ran
  let x₁ := x.withBlock name
  let x₂ := x₁.withBlock name'
  let t : BlockId := ⟨x.frame.draft.blocks.size⟩
  let b : BlockId := ⟨x₁.frame.draft.blocks.size⟩
  have opens₁ : x.Opens s t x₁ := x.opens_withBlock s name
  have opens₂ : x₁.Opens s b x₂ := x₁.opens_withBlock s name'
  obtain ⟨apart, waits⟩ := opens₂.others t opens₁.waits
  have stays : x.point.Advances W 0 [] x₂.point :=
    (Stage.advances_withBlock x name).trans (Stage.advances_withBlock x₁ name')
  -- the side, written in the first block
  let y := x₂.entered _ t (waits.closed x₂.isOpen (e t b))
  have ran' := (leave_apply x₂ (e t b) waits (do m; Draft.br b; Draft.moveTo b; k)).symm.trans ran
  obtain ⟨_, f₁, w₁, ran₁, ran₂⟩ := of_bind_ok ran'
  obtain ⟨y', rfl, rfl, follows, here⟩ := side y
    ⟨rfl, rfl, rfl, stays.size_le, fun _ _ => rfl⟩ _ f₁ w₁ ran₁
  have stillWaits {c : BlockId} (inside : x₂.Waits c) (isOther : t ≠ c) : y'.Waits c :=
    follows.waits c ((inside.closed x₂.isOpen (e t b)).moved isOther.symm)
  have waits' : y'.Waits b := stillWaits opens₂.waits apart.symm
  let z := y'.entered _ b (waits'.closed y'.isOpen (.br b))
  have ran₃ := (leave_apply y' (.br b) waits' k).symm.trans ran₂
  have left (c : BlockId) (inside : x.Waits c) : z.Waits c := by
    obtain ⟨isOther, there⟩ := opens₁.others c inside
    obtain ⟨isOther', there'⟩ := opens₂.others c there
    exact ((stillWaits there' isOther).closed y'.isOpen (.br b)).moved isOther'.symm
  have isFrame : z.frame = { x.frame with draft := z.frame.draft } := by
    change ({ y'.frame with draft := z.frame.draft } : Frame) = _
    rw [follows.frame]
    rfl
  obtain ⟨units, advances⟩ := follows.point
  cases goesOn with
  | true =>
    have enters : x₂.point.Advances W 0 [] y.point :=
      .enter (leads t b) (.refl _) (waits.closed x₂.isOpen _)
    have leaves : y'.point.Advances W 0 [] z.point :=
      .enter (.br b) (.refl _) (waits'.closed y'.isOpen _)
    have reached : x.Follows W z :=
      ⟨follows.work, isFrame, left, _, stays.trans (enters.trans (advances.trans leaves))⟩
    exact behind reached (rest y' z (here rfl) leaves.retains rfl reached) ran₃
  | false =>
    -- control passes the side by
    have before : (x₂.frame.draft.closed x₂.place (e t b)).Extends
        (y'.frame.draft.closed y'.place (.br b)) :=
      ((Draft.extends_moved _ t).trans advances.grown).trans (y'.isOpen.extends_closed _)
    let z' := x₂.entered _ b (waits'.closed y'.isOpen (.br b))
    have passes : x.point.Advances W 0 [] z'.point :=
      stays.trans (.enter (leads t b) before (waits'.closed y'.isOpen _))
    have reached : x.Follows W z' := ⟨rfl, rfl, left, _, passes⟩
    rw [isFrame, show y'.work = x.work from follows.work] at ran₃
    exact behind reached (rest x z' (passed rfl) passes.retains rfl reached) ran₃

end Takes

end Emit

/-! ## Operands -/

namespace Stage

variable {W : World} {s : Setup} {x x' : Stage} {hidden : List Nat} {τ : Prim}
  {v : Scalar} {a : Operand}

/-- The operand is the scalar, by itself or in a box that is not hidden. -/
structure Denotes (x : Stage) (hidden : List Nat) (τ : Prim) (v : Scalar) (a : Operand) : Prop where
  prim : v.prim = τ
  carries : x.Carries τ.info v.value a
  apart : ∀ k ∈ hidden, x.values a.value ≠ address k

namespace Denotes

theorem info (h : x.Denotes hidden τ v a) : a.info = τ.info := by cases h.carries <;> rfl

theorem scalar (h : x.Denotes hidden τ v a) : τ.info.Scalar v.value := h.prim ▸ v.scalar_value

theorem of_raw {p : ValueId} (prim : v.prim = τ) (known : x.Knows p v.value) :
    x.Denotes hidden τ v (.raw p τ.info) :=
  ⟨prim, .raw known, fun k _ same => v.value_ne_address k (known.value.symm.trans same)⟩

theorem later (h : x.Denotes hidden τ v a) (follows : x.Follows W x')
    (saves : x.memory.Saves [] x'.memory) : x'.Denotes hidden τ v a := by
  obtain ⟨prim, carries, apart⟩ := h
  cases carries with
  | raw isValue => exact .of_raw prim (follows.knows isValue)
  | @boxed p j isPtr box =>
    refine ⟨prim, .boxed (follows.knows isPtr) (saves.scalars j v (by simp) box),
      fun k inside same => ?_⟩
    exact apart k inside ((follows.retains.kept p isPtr.inside).symm.trans same)

end Denotes

/-- From the first stage to the second one an expression is computed: the operand is what it gives,
and the variables are as it leaves them. -/
structure Computes (x : Stage) (W : World) (hidden : List Nat) (Δ : Layout) (τ : Prim) (v : Scalar)
    (vars : Variables) (a : Operand) (x' : Stage) : Prop where
  spends : x.Spends W x'
  denotes : x'.Denotes hidden τ v a
  represents : x'.point.Represents hidden Δ vars
  saves : x.memory.Saves [] x'.memory

/-- What is computed is changed further, with memory as it is. -/
theorem Computes.with {Δ : Layout} {vars : Variables} {x'' : Stage} {σ : Prim}
    {u : Scalar} {b : Operand}
    (h : x.Computes W hidden Δ τ v vars a x') (follows : x'.Follows W x'')
    (denotes : x''.Denotes hidden σ u b)
    (memory : x''.memory = x'.memory) : x.Computes W hidden Δ σ u vars b x'' :=
  ⟨h.spends.follows follows, denotes, h.represents.keeps follows.retains
    (show x'.memory.Keeps [] x''.memory from memory ▸ .refl _ _), memory ▸ h.saves⟩

/-- At the stage names refer to the places of the variables. -/
structure Ready (s : Setup) (W : World) (Δ : Layout) (x : Stage) : Prop where
  moment : Moment s x.work
  admitted : x.Admits W.types
  describes : x.frame.scope.Describes s.program Δ

theorem Follows.represents {Δ : Layout} {vars : Variables} (h : x.Follows W x')
    (represents : x.point.Represents hidden Δ vars) (keeps : x.memory.Keeps [] x'.memory) :
    x'.point.Represents hidden Δ vars := represents.keeps h.retains keeps

theorem Beside.represents {Δ : Layout} {vars : Variables} (h : x.Beside x')
    (represents : x.point.Represents hidden Δ vars) : x'.point.Represents hidden Δ vars :=
  represents.keeps h.retains (show x.memory.Keeps [] x'.memory from h.memory ▸ .refl _ _)

theorem Ready.beside {Δ : Layout} (h : x.Ready s W Δ) (beside : x.Beside x') : x'.Ready s W Δ := by
  refine ⟨beside.work ▸ h.moment, ?_, ?_⟩
  · rw [Admits, beside.work]
    exact h.admitted
  · rw [beside.frame]
    exact h.describes

theorem Ready.follows {Δ : Layout} (h : x.Ready s W Δ) (follows : x.Follows W x') :
    x'.Ready s W Δ := by
  refine ⟨follows.work ▸ h.moment, ?_, ?_⟩
  · rw [Admits, follows.work]
    exact h.admitted
  · rw [follows.frame]
    exact h.describes

end Stage

namespace Emit

section Operands

variable {W : World} {s : Setup} {x : Stage} {Δ : Layout} {hidden : List Nat}
  {vars : Variables} {τ : Prim}
  {v u : Scalar} {a b : Operand} {n : Name}

theorem raw_takes (ready : x.Ready s W Δ) (denotes : x.Denotes hidden τ v a) :
    Takes s W x (raw a) fun p x' => x'.Knows p v.value ∧ x'.memory = x.memory := by
  refine (Takes.of_achieves (raw_carries denotes.scalar denotes.carries) (fun _ _ here => here.2.2)
    ready.admitted).mono ?_
  rintro p x' _ ⟨known, memory, _⟩
  exact ⟨known, memory⟩

theorem truthy_takes (ready : x.Ready s W Δ) (denotes : x.Denotes hidden τ v a) :
    Takes s W x (truthy a) fun p x' => x'.Knows p (.bool v.truthy) ∧ x'.memory = x.memory := by
  refine (Takes.of_achieves (truthy_carries denotes.scalar denotes.carries)
    (fun _ _ here => here.2.2)
    ready.admitted).mono ?_
  rintro p x' _ ⟨known, memory, _⟩
  exact ⟨v.isTrue_value ▸ known, memory⟩

/-- The address of a box that holds the scalar and is not hidden. -/
def Boxes (hidden : List Nat) (v : Scalar) (p : ValueId) (x : Stage) : Prop :=
  ∃ j, x.Knows p (address j) ∧ x.memory.heap[j]? = some v.value ∧ j ∉ hidden

theorem boxed_takes (ready : x.Ready s W Δ) (represents : x.point.Represents hidden Δ vars)
    (denotes : x.Denotes hidden τ v a) :
    Takes s W x (boxed a) fun p x' => Boxes hidden v p x' ∧ x.memory.Keeps [] x'.memory := by
  have scalar := denotes.scalar
  obtain ⟨prim, carries, apart⟩ := denotes
  cases carries with
  | @boxed p j isPtr box =>
    exact .pure ⟨⟨j, isPtr, box, fun inside => apart j inside isPtr.value⟩, .refl _ _⟩
  | @raw p isValue =>
    refine (Takes.of_achieves (boxed_raw ready.moment scalar isValue) (fun _ _ here => here.1)
      ready.admitted).mono ?_
    rintro q x' _ ⟨_, isNew, memory⟩
    refine ⟨⟨_, isNew, memory ▸ Memory.heap_push _ _, fun inside => ?_⟩, memory ▸
      Memory.keeps_push _ _⟩
    obtain ⟨_, flag⟩ := represents.flags _ inside
    exact Nat.lt_irrefl _ (Memory.lt_of_heap flag)

/-- A scalar is taken as it is where its type is expected. -/
theorem coerced_takes (depth : Nat) (ready : x.Ready s W Δ)
    (represents : x.point.Represents hidden Δ vars)
    (denotes : x.Denotes hidden τ v a) : Takes s W x ((Lowering.ofDepth depth).coerced a τ.info)
      fun p x' => Boxes hidden v p x' ∧ x.memory.Keeps [] x'.memory := by
  cases depth with
  | zero => exact .fails rfl
  | succ depth =>
    have same : (Lowering.ofDepth (depth + 1)).coerce a τ.info = pure a :=
      denotes.info ▸ coerce_self _ a
    rw [Lowering.coerced, same, pure_bind]
    exact boxed_takes ready represents denotes

/-! ## Variables -/

/-- A name that stands for a variable. -/
theorem lookup_takes {home : Home} (ready : x.Ready s W Δ)
    (found : Table.find? n Δ = some (home, τ)) :
    Takes s W x (lookup n) fun b x' => b = some (home.binding τ) ∧ x' = x := by
  intro b f w ran
  have known := ready.describes.names n home τ found
  have same : lookup n x.frame s x.work = .ok (some (home.binding τ), x.frame) x.work := by
    change EStateM.Result.ok ((x.frame.scope.lookup n <|> x.work.moduleScope.lookup n), x.frame)
      x.work = _
    rw [known]
    rfl
  cases same.symm.trans ran
  exact ⟨x, rfl, rfl, .refl x, rfl, rfl⟩

/-- Where the variable is kept. -/
theorem variablePlace_takes {home : Home} (ready : x.Ready s W Δ) (inside : home.Inside x.size)
    (found : Table.find? n Δ = some (home, τ)) : Takes s W x (variablePlace n) fun result x' =>
      x'.Knows result.1 (home.address x.values) ∧ result.2 = τ.info ∧ x'.memory = x.memory := by
  refine .bind (lookup_takes ready found) ?_
  rintro _ _ _ ⟨rfl, rfl⟩
  cases home with
  | cell ptr => exact .pure ⟨⟨inside, rfl⟩, rfl, rfl⟩
  | global id =>
    refine .bind (.gives ready.admitted (.const (.global id) _)) ?_
    rintro a x' _ ⟨known, memory⟩
    exact .pure ⟨known, rfl, memory⟩

/-- The value of a variable. -/
theorem readName_takes (l : Lowering) (ready : x.Ready s W Δ)
    (represents : x.point.Represents hidden Δ vars)
    (found : Table.find? n vars = some v) : Takes s W x (readName l n) fun a x' =>
      x.Spends W x' ∧ x'.Denotes hidden v.prim v a ∧ x'.memory = x.memory := by
  obtain ⟨home, there, inside, holds⟩ := represents.home found
  obtain ⟨j, loaded, box, apart⟩ := holds.load
  have reads {y : Stage} {ptr : ValueId} (follows : x.Follows W y)
      (isPtr : y.Knows ptr (home.address x.values)) (memory : y.memory = x.memory) (name : String) :
      Takes s W y (do return .boxed (← Draft.load .ptr ptr name) v.prim.info) fun a x' =>
        x.Spends W x' ∧ x'.Denotes hidden v.prim v a ∧ x'.memory = x.memory := by
    have load : y.memory.load (y.values ptr) = .ok (address j) := by
      rw [show y.values ptr = _ from isPtr.value, memory]
      exact loaded
    refine .bind (.define (ready.follows follows).admitted (.load .ptr name load)) ?_
    rintro a x' _ ⟨spends, known, memory'⟩
    have memory' : x'.memory = x.memory := memory'.trans memory
    refine .pure ⟨follows.spends spends, ⟨rfl, .boxed known (memory' ▸ box), fun k isHidden same =>
      apart ?_⟩, memory'⟩
    have isAddress : x'.values a = address j := known.value
    rw [show k = j by simpa [address, Region.root] using same.symm.trans isAddress] at isHidden
    exact isHidden
  refine .bind (.text n) ?_
  rintro name _ _ ⟨rfl, rfl⟩
  refine .bind (lookup_takes ready there) ?_
  rintro _ _ _ ⟨rfl, rfl⟩
  cases home with
  | cell ptr => exact reads (.refl _) ⟨inside, rfl⟩ rfl _
  | global id =>
    refine .bind (.gives ready.admitted (.const (.global id) _)) ?_
    rintro a x' follows ⟨known, memory⟩
    exact reads follows known memory _

theorem checkRebinding_scalar (n : Name) (τ : Prim) (i : Info) :
    checkRebinding n τ.info i = pure () := by
  cases τ <;> rfl

/-- A variable gets a value of its type. -/
theorem assignName_takes (depth : Nat) (ready : x.Ready s W Δ)
    (represents : x.point.Represents hidden Δ vars) (denotes : x.Denotes hidden τ v a)
    (known : Table.find? n (Layout.typing Δ) = some τ) :
    Takes s W x (assignName (.ofDepth depth) n a) fun b x' => x'.Denotes hidden τ v b ∧
      x'.point.Represents hidden Δ (Table.put n v vars) ∧ x.memory.Saves [] x'.memory := by
  rw [Layout.find?_typing] at known
  obtain ⟨⟨home, _⟩, found, rfl⟩ := Option.map_eq_some_iff.mp known
  obtain ⟨_, _, _, inside, _⟩ := represents.lookup found
  refine .bind (variablePlace_takes ready inside found) ?_
  rintro ⟨place, _⟩ x₁ follows₁ ⟨isPlace, rfl, memory₁⟩
  have ready₁ := ready.follows follows₁
  have represents₁ := follows₁.represents represents (memory₁ ▸ .refl _ _)
  have denotes₁ := denotes.later follows₁ (memory₁ ▸ .refl _ _)
  dsimp only at isPlace ⊢
  rw [checkRebinding_scalar, pure_bind]
  refine .bind (coerced_takes depth ready₁ represents₁ denotes₁) ?_
  rintro p x₂ follows₂ ⟨⟨j, isBox, box, apart⟩, keeps₂⟩
  have represents₂ := follows₂.represents represents₁ keeps₂
  obtain ⟨_, _, _, inside₂, holds⟩ := represents₂.lookup found
  obtain ⟨r, i, isRoot, held, free, stored, holds'⟩ := holds.stored box apart
  have isPlace₂ : x₂.values place = home.address x₂.values :=
    (follows₂.knows isPlace).value.trans (Home.address_eq inside
      (follows₁.trans follows₂).retains.kept).symm
  have stores : x₂.memory.store (x₂.values place) (x₂.values p) =
      .ok (x₂.memory.setRoot (address j) r) := by
    rw [isPlace₂, show x₂.values p = address j from isBox.value]
    exact stored
  refine .bind (.store (ready₁.follows follows₂).admitted stores) ?_
  rintro _ x₃ follows₃ ⟨values₃, memory₃⟩
  have saves₃ : x₂.memory.Saves [] x₃.memory := memory₃ ▸ .setRoot (.of_held held) free _
  have saves : x.memory.Saves [] x₃.memory :=
    (memory₁ ▸ (Memory.Saves.of_keeps keeps₂ : x₁.memory.Saves [] x₂.memory)).trans saves₃
  have prim := denotes.prim
  dsimp only at prim
  subst prim
  refine .pure ⟨⟨rfl, .boxed (follows₃.knows isBox) (saves₃.scalars j v (by simp) box), ?_⟩, ?_,
    saves⟩
  · intro k isHidden same
    have isAddress : x₃.values p = address j := (follows₃.knows isBox).value
    rw [show k = j by simpa [address, Region.root] using same.symm.trans isAddress] at isHidden
    exact apart isHidden
  · refine represents₂.assign follows₃.retains found ?_ ?_ ?_
    · exact show x₃.memory.Variable hidden _ v from memory₃ ▸ holds'
    · intro a u away there
      refine show x₃.memory.Variable hidden a u from memory₃ ▸ there.setRoot (.of_held held) _ ?_
      exact isRoot ▸ away
    · intro k isHidden
      obtain ⟨flag, here⟩ := represents₂.flags k isHidden
      exact (saves₃.scalars k (.boolean flag) (by simp) here).trans here.symm

/-! ## Operators that compute both sides -/

/-- Both scalars by themselves. -/
theorem raws_takes {α : Type} {R : ValueId → ValueId → Emit α} {Q : α → Stage → Prop}
    (ready : x.Ready s W Δ) (left : x.Denotes hidden τ v a) (right : x.Denotes hidden τ u b)
    (rest : ∀ p q x', x.Follows W x' → x'.memory = x.memory → x'.values p = v.value →
    x'.values q = u.value →
      Takes s W x' (R p q) Q) : Takes s W x (do let p ← raw a; let q ← raw b; R p q) Q := by
  refine .bind (raw_takes ready left) ?_
  rintro p x₁ follows₁ ⟨isLeft, memory₁⟩
  refine .bind (raw_takes (ready.follows follows₁) (right.later follows₁ (memory₁ ▸ .refl _ _))) ?_
  rintro q x₂ follows₂ ⟨isRight, memory₂⟩
  exact rest p q x₂ (follows₁.trans follows₂) (memory₂.trans memory₁) (follows₂.knows isLeft).value
    isRight.value

theorem equal_takes (ready : x.Ready s W Δ) (left : x.Denotes hidden τ v a)
    (right : x.Denotes hidden τ u b) :
    Takes s W x (equal a b) fun p x' => x'.Knows p (.bool (v.same u)) ∧ x'.memory = x.memory := by
  have notNull : τ.info.isNullish = false := left.scalar.not_isNullish
  rw [equal_eq (left.info ▸ notNull) (right.info ▸ notNull)]
  simp only [left.info, right.info, left.scalar.isPrimitive, decide_true, Bool.and_true, if_true]
  refine raws_takes ready left right fun p q x₁ follows₁ memory₁ isLeft isRight => ?_
  have compared : compareValues .eq (x₁.values p) (x₁.values q) = .ok (v.same u) := by
    rw [isLeft, isRight, ← Scalar.same_value]
    exact left.scalar.compare_eq right.scalar
  refine (Takes.gives (ready.follows follows₁).admitted (.compare "eq" compared)).mono ?_
  rintro r x₂ _ ⟨known, memory₂⟩
  exact ⟨known, memory₂.trans memory₁⟩

/-- Numbers are added, subtracted, multiplied and divided as the machine does it. -/
theorem binaryValue_of_arithmetic? {op : Source.BinaryOp} {code : Code.BinaryOp}
    {name : String} {m k : Float}
    {c : Scalar} (isArithmetic : arithmetic? op = some (code, name))
    (gives : op.combine? (.number m) (.number k) = some c) :
    c.prim = .number ∧ binaryValue code (.float m) (.float k) = .ok c.value := by
  cases op <;> cases isArithmetic <;> cases gives <;> exact ⟨rfl, rfl⟩

/-- Numbers are put in order as the machine does it. -/
theorem compareValues_of_ordering? {op : Source.BinaryOp} {pred : Predicate}
    {name : String} {m k : Float}
    {c : Scalar} (isOrdering : ordering? op = some (pred, name))
    (gives : op.combine? (.number m) (.number k) = some c) :
    ∃ truth, c = .boolean truth ∧ compareValues pred (.float m) (.float k) = .ok truth := by
  cases op <;> cases isOrdering <;> cases gives <;> refine ⟨_, rfl, ?_⟩ <;>
    simp only [compareValues] <;> rcases floatOrder m k with _ | _ | _ | _ <;> rfl

theorem numeric_takes {op : Source.BinaryOp} {m k : Float} {c : Scalar} (ready : x.Ready s W Δ)
    (left : x.Denotes hidden .number (.number m) a) (right : x.Denotes hidden .number (.number k) b)
    (gives : op.combine? (.number m) (.number k) = some c)
    (isNumeric : (arithmetic? op).isSome ∨ (ordering? op).isSome) :
    Takes s W x (numeric op a b) fun r x' => (∃ d, r = some d ∧ x'.Denotes hidden c.prim c d) ∧
      x'.memory = x.memory := by
  cases isArithmetic : arithmetic? op with
  | some result =>
    obtain ⟨code, name⟩ := result
    obtain ⟨prim, computed⟩ := binaryValue_of_arithmetic? isArithmetic gives
    simp only [numeric, isArithmetic]
    refine raws_takes ready left right fun p q x₁ follows₁ memory₁ isLeft isRight => ?_
    have result : binaryValue code (x₁.values p) (x₁.values q) = .ok c.value := by
      rw [isLeft, isRight]
      exact computed
    refine .bind (.gives (ready.follows follows₁).admitted (.binary name result)) ?_
    rintro r x₂ _ ⟨known, memory₂⟩
    refine .pure ⟨⟨_, rfl, ?_⟩, memory₂.trans memory₁⟩
    rw [prim]
    exact .of_raw prim known
  | none =>
    obtain ⟨⟨pred, name⟩, isOrdering⟩ := Option.isSome_iff_exists.mp
      (isNumeric.resolve_left (by simp [isArithmetic]))
    obtain ⟨truth, rfl, computed⟩ := compareValues_of_ordering? isOrdering gives
    simp only [numeric, isArithmetic, isOrdering]
    refine raws_takes ready left right fun p q x₁ follows₁ memory₁ isLeft isRight => ?_
    have result : compareValues pred (x₁.values p) (x₁.values q) = .ok truth := by
      rw [isLeft, isRight]
      exact computed
    refine .bind (.gives (ready.follows follows₁).admitted (.compare name result)) ?_
    rintro r x₂ _ ⟨known, memory₂⟩
    exact .pure ⟨⟨_, rfl, .of_raw rfl known⟩, memory₂.trans memory₁⟩

theorem strictBinary_number {op : Source.BinaryOp} (isNumber : a.info = .number)
    (isNumber' : b.info = .number)
    (isNumeric : (arithmetic? op).isSome ∨ (ordering? op).isSome) : strictBinary op a b = (do
      match ← numeric op a b with
      | some v => return v
      | none => unsupportedBinary op a b) := by
  obtain ⟨_, _, _⟩ := a
  obtain ⟨_, _, _⟩ := b
  cases isNumber
  cases isNumber'
  cases op <;> first | rfl | simp [arithmetic?, ordering?] at isNumeric

theorem strictBinary_text (isText : a.info = .text) (isText' : b.info = .text) :
    strictBinary .add a b = (do
      let p ← raw a
      let q ← raw b
      return .raw (← Draft.binary .concat p q "concat") .text) := by
  obtain ⟨_, _, _⟩ := a
  obtain ⟨_, _, _⟩ := b
  cases isText
  cases isText'
  rfl

/-- An operator compares, joins texts, or is one on numbers. -/
inductive Kind (op : Source.BinaryOp) (v u : Scalar) (τ σ : Prim) (c : Scalar) : Prop
  | same (isOp : op = .strictEq) (isPrim : σ = .boolean) (gives : c = .boolean (v.same u))
  | differs (isOp : op = .strictNe) (isPrim : σ = .boolean) (gives : c = .boolean !v.same u)
  | joins {t t' : String} (isOp : op = .add) (isPrim : τ = .text ∧ σ = .text) (left : v = .text t)
    (right : u = .text t') (gives : c = .text (t ++ t'))
  | numeric {m k : Float} (isNumeric : (arithmetic? op).isSome ∨ (ordering? op).isSome)
    (isPrim : τ = .number)
    (left : v = .number m) (right : u = .number k) (result : c.prim = σ)

theorem kind_of_combine? {op : Source.BinaryOp} {σ : Prim} {c : Scalar} (left : v.prim = τ)
    (right : u.prim = τ)
    (result : op.result? τ = some σ) (gives : op.combine? v u = some c) : Kind op v u τ σ c := by
  subst left
  cases v <;> cases u <;> cases right <;> cases op <;> cases result <;> cases gives <;>
    first
    | exact .same rfl rfl rfl
    | exact .differs rfl rfl rfl
    | exact .joins rfl ⟨rfl, rfl⟩ rfl rfl rfl
    | exact .numeric (.inl rfl) rfl rfl rfl rfl
    | exact .numeric (.inr rfl) rfl rfl rfl rfl

/-- What an operator gives that computes both its sides. -/
theorem strictBinary_takes {op : Source.BinaryOp} {σ : Prim} {c : Scalar} (ready : x.Ready s W Δ)
    (left : x.Denotes hidden τ v a) (right : x.Denotes hidden τ u b)
    (result : op.result? τ = some σ)
    (gives : op.combine? v u = some c) : Takes s W x (strictBinary op a b) fun r x' =>
      x'.Denotes hidden σ c r ∧ x'.memory = x.memory := by
  cases kind_of_combine? left.prim right.prim result gives with
  | same isOp isPrim isResult =>
    subst isOp isPrim isResult
    refine .bind (equal_takes ready left right) ?_
    rintro p x₁ _ ⟨known, memory₁⟩
    exact .pure ⟨.of_raw (v := .boolean _) rfl known, memory₁⟩
  | differs isOp isPrim isResult =>
    subst isOp isPrim isResult
    refine .bind (equal_takes ready left right) ?_
    rintro p x₁ follows₁ ⟨known, memory₁⟩
    refine .bind (.gives (ready.follows follows₁).admitted (.not "ne" known.value)) ?_
    rintro q x₂ _ ⟨known', memory₂⟩
    exact .pure ⟨.of_raw (v := .boolean _) rfl known', memory₂.trans memory₁⟩
  | @joins t t' isOp isPrim isLeft isRight isResult =>
    obtain ⟨rfl, rfl⟩ := isPrim
    subst isOp isLeft isRight isResult
    rw [strictBinary_text left.info right.info]
    refine raws_takes ready left right fun p q x₁ follows₁ memory₁ isLeft isRight => ?_
    have computed : binaryValue .concat (x₁.values p) (x₁.values q) = .ok (.text (t ++ t')) := by
      rw [isLeft, isRight]
      rfl
    refine .bind (.gives (ready.follows follows₁).admitted (.binary "concat" computed)) ?_
    rintro r x₂ _ ⟨known, memory₂⟩
    exact .pure ⟨.of_raw (v := .text _) rfl known, memory₂.trans memory₁⟩
  | numeric isNumeric isPrim isLeft isRight isResult =>
    subst isPrim isLeft isRight isResult
    rw [strictBinary_number left.info right.info isNumeric]
    refine .bind (numeric_takes ready left right gives isNumeric) ?_
    rintro _ x₁ _ ⟨⟨d, rfl, denotes⟩, memory₁⟩
    exact .pure ⟨denotes, memory₁⟩

/-! ## Operators on one value -/

theorem negate_takes {m : Float} (ready : x.Ready s W Δ)
    (denotes : x.Denotes hidden .number (.number m) a) :
    Takes s W x (negate a) fun r x' => x'.Denotes hidden .number (.number (-m)) r ∧
    x'.memory = x.memory := by
  have isNumber : a.info = .number := denotes.info
  simp only [negate, isNumber, if_true]
  refine .bind (raw_takes ready denotes) ?_
  rintro p x₁ follows₁ ⟨known, memory₁⟩
  refine .bind (.gives (ready.follows follows₁).admitted (.fneg "neg" known.value)) ?_
  rintro q x₂ _ ⟨known', memory₂⟩
  exact .pure ⟨.of_raw (v := .number _) rfl known', memory₂.trans memory₁⟩

/-- What reads the program goes on with it. -/
theorem program_bind_apply {α : Type} (k : Program → Emit α) (f : Frame) (s : Setup) (w : Work) :
    ((liftM Compile.program : Emit Program) >>= k) f s w = k s.program f s w := rfl

/-- What an update of a name changes is the variable. -/
theorem updateTarget_takes (l : Lowering) {operand : ExprId} (ready : x.Ready s W Δ)
    (represents : x.point.Represents hidden Δ vars)
    (isName : (s.program.expr operand).kind = .ident n)
    (found : Table.find? n vars = some v) : Takes s W x (updateTarget l operand) fun result x' =>
      result.2 = .name n ∧ x.Spends W x' ∧ x'.Denotes hidden v.prim v result.1 ∧
      x'.memory = x.memory := by
  have isTarget : updateTarget l operand x.frame s x.work = (do
      return (← readName l n, .name n) : Emit (Operand × UpdateTarget)) x.frame s x.work := by
    rw [updateTarget, program_bind_apply, isName]
  refine .of_eq isTarget (.bind (readName_takes l ready represents found) ?_)
  rintro a x₁ _ here
  exact .pure ⟨rfl, here⟩

/-- A number in a variable is changed. -/
theorem update_takes (depth : Nat) {operand : ExprId} {increment before : Bool} {old new : Float}
    (ready : x.Ready s W Δ) (represents : x.point.Represents hidden Δ vars)
    (isName : (s.program.expr operand).kind = .ident n)
    (found : Table.find? n vars = some (.number old))
    (changes : (if increment then old + 1.0 else old - 1.0) = new) :
    Takes s W x (update (.ofDepth depth) increment before operand) fun r x' => x.Spends W x' ∧
      x'.Denotes hidden .number (.number (if before then new else old)) r ∧
      x'.point.Represents hidden Δ (Table.put n (.number new) vars) ∧
      x.memory.Saves [] x'.memory := by
  have known : Table.find? n (Layout.typing Δ) = some .number := by
    rw [← represents.typing, Variables.find?_typing, found]
    rfl
  refine .bind (updateTarget_takes _ ready represents isName found) ?_
  rintro ⟨a, _⟩ x₁ follows₁ ⟨rfl, spends, denotes, memory₁⟩
  have isNumber : a.info = .number := denotes.info
  simp only [isNumber, ne_eq, not_true_eq_false, if_false]
  refine .bind (raw_takes (ready.follows follows₁) denotes) ?_
  rintro p x₂ follows₂ ⟨isOld, memory₂⟩
  have toSecond := follows₁.trans follows₂
  refine .bind (.gives (ready.follows toSecond).admitted (.const (.float 1.0) _)) ?_
  rintro one x₃ follows₃ ⟨isOne, memory₃⟩
  have toThird := toSecond.trans follows₃
  have computed : binaryValue (if increment then .fadd else .fsub) (x₃.values p) (x₃.values one) =
      .ok (.float new) := by
    rw [show x₃.values p = .float old from (follows₃.knows isOld).value,
      show x₃.values one = .float 1.0 from isOne.value, ← changes]
    cases increment <;> rfl
  refine .bind (.gives (ready.follows toThird).admitted (.binary "update" computed)) ?_
  rintro q x₄ follows₄ ⟨isNew, memory₄⟩
  have toFourth := toThird.trans follows₄
  have memory : x₄.memory = x.memory := memory₄.trans (memory₃.trans (memory₂.trans memory₁))
  have represents₄ := toFourth.represents represents (memory ▸ .refl _ _)
  have assigned := (assignName_takes depth (ready.follows toFourth) represents₄
    (.of_raw (v := .number new) rfl isNew) known).mono fun _ _ _ here => here.2
  refine .bind assigned.discard ?_
  rintro _ x₅ follows₅ ⟨represents₅, saves₅⟩
  refine .pure ⟨?_, ?_, represents₅, memory ▸ saves₅⟩
  · exact spends.follows (((follows₂.trans follows₃).trans follows₄).trans follows₅)
  · cases before with
    | true => exact .of_raw (v := .number new) rfl (follows₅.knows isNew)
    | false =>
      exact .of_raw (v := .number old) rfl (((follows₃.trans follows₄).trans follows₅).knows isOld)

/-! ## Operators that may do without their right side -/

theorem logical_eq (l : Lowering) (isAnd : Bool) (lhs rhs : ExprId) : logical l isAnd lhs rhs = (do
    let cell ← Draft.alloc .i1 "logic"
    let left ← truthy (← l.expr lhs)
    Draft.store left cell
    let t ← Draft.block "logic.rhs"
    let b ← Draft.block "logic.done"
    Draft.close (if isAnd then .condBr left t b else .condBr left b t)
    Draft.moveTo t
    (do let right ← truthy (← l.expr rhs); Draft.store right cell)
    Draft.br b
    Draft.moveTo b
    return .raw (← Draft.load .i1 cell "logic") .boolean) := by
  cases isAnd <;> simp [logical, Draft.condBr, bind_assoc]

theorem zeroValue_truth (ready : x.Ready s W Δ) (types : TypeTable) (admitted : x.Admits types) :
    zeroValue types .i1 = .bool false := by
  have isBool : types.get .i1 = .i1 := ready.moment.get_of_start admitted rfl (by simp) (by simp)
  simp only [zeroValue, zeroValueAt, isBool]

/-- A hidden cell gets a truth value. -/
theorem flag_takes {cell test : ValueId} {c : Nat} {truth : Bool} (ready : x.Ready s W Δ)
    (represents : x.point.Represents hidden Δ vars) (isHidden : c ∈ hidden)
    (isPtr : x.Knows cell (address c))
    (isTest : x.Knows test (.bool truth)) : Takes s W x (liftM (Draft.store test cell)) fun _ x' =>
      x'.memory.heap[c]? = some (.bool truth) ∧ x'.point.Represents hidden Δ vars ∧
        x.memory.Saves [c] x'.memory := by
  obtain ⟨_, flag⟩ := represents.flags c isHidden
  have inside : c < x.memory.heap.size := Memory.lt_of_heap flag
  have stored : x.memory.store (x.values cell) (x.values test) =
      .ok (x.memory.put c (.bool truth)) := by
    rw [show x.values cell = address c from isPtr.value, show x.values test =
      .bool truth from isTest.value]
    exact Memory.store_cell inside _
  refine (Takes.store ready.admitted stored).mono ?_
  rintro _ x' follows ⟨_, memory⟩
  refine ⟨memory ▸ Memory.heap_put inside _, represents.put follows.retains isHidden memory, ?_⟩
  exact memory ▸ .of_keeps (Memory.keeps_put _ _ _)

/-- What an operand of the operator is worth is put into a hidden cell. -/
theorem truthInto_takes {m : Emit Operand} {vars' : Variables} {σ : Prim} {cell : ValueId} {c : Nat}
    (ready : x.Ready s W Δ) (operand : Takes s W x m (x.Computes W hidden Δ σ u vars'))
    (isHidden : c ∈ hidden)
    (isPtr : x.Knows cell (address c)) :
    Takes s W x (do let test ← truthy (← m); Draft.store test cell) fun _ x' =>
      x'.memory.heap[c]? = some (.bool u.truthy) ∧ x'.point.Represents hidden Δ vars' ∧
        x.memory.Saves [c] x'.memory := by
  refine .bind operand ?_
  rintro a x₁ follows₁ computes
  refine .bind (truthy_takes (ready.follows follows₁) computes.denotes) ?_
  rintro test x₂ follows₂ ⟨isTest, memory⟩
  have toSecond := follows₁.trans follows₂
  have represents := follows₂.represents computes.represents (memory ▸ .refl _ _)
  refine (flag_takes (ready.follows toSecond) represents isHidden
    (toSecond.knows isPtr) isTest).mono ?_
  rintro _ x₃ _ ⟨flag, represents', saves⟩
  exact ⟨flag, represents', ((memory ▸ computes.saves).weaken (by simp)).trans saves⟩

theorem logical_takes {l : Lowering} {isAnd goesOn : Bool} {lhs rhs : ExprId} {σ : Prim}
    {vars₁ vars₂ : Variables}
    (ready : x.Ready s W Δ) (represents : x.point.Represents hidden Δ vars)
    (left : ∀ {y : Stage} {hidden' : List Nat}, y.Ready s W Δ → y.point.Represents hidden' Δ vars →
      Takes s W y (l.expr lhs) (y.Computes W hidden' Δ τ v vars₁))
    (right : ∀ {y : Stage} {hidden' : List Nat}, y.Ready s W Δ →
    y.point.Represents hidden' Δ vars₁ →
      Takes s W y (l.expr rhs) (y.Computes W hidden' Δ σ u vars₂))
    (decides : (if isAnd then v.truthy else !v.truthy) = goesOn) :
    Takes s W x (logical l isAnd lhs rhs) (x.Computes W hidden Δ .boolean
      (.boolean (if goesOn then u else v).truthy) (if goesOn then vars₂ else vars₁)) := by
  rw [logical_eq]
  generalize isCell : x.memory.heap.size = c
  have allocated : Takes s W x (liftM (Draft.alloc .i1 "logic")) fun a x' =>
      x'.Knows a (address c) ∧ x'.memory = x.memory.push (.bool false) :=
    .write ready.admitted (.alloc "logic" (zeroValue_truth ready)) fun _ _ _ ⟨known, memory, _⟩ =>
      ⟨isCell ▸ known, memory⟩
  refine .bind allocated ?_
  rintro cell x₁ follows₁ ⟨isPtr, memory₁⟩
  have ready₁ := ready.follows follows₁
  have represents₁ : x₁.point.Represents (c :: hidden) Δ vars :=
    isCell ▸ represents.hide follows₁.retains memory₁
  refine .bind (left ready₁ represents₁) ?_
  rintro a x₂ follows₂ computes
  have ready₂ := ready₁.follows follows₂
  refine .bind (truthy_takes ready₂ computes.denotes) ?_
  rintro test x₃ follows₃ ⟨isTest, memory₃⟩
  have ready₃ := ready₂.follows follows₃
  have represents₃ := follows₃.represents computes.represents (memory₃ ▸ .refl _ _)
  have isPtr₃ := (follows₂.trans follows₃).knows isPtr
  refine .bind (flag_takes ready₃ represents₃ (List.mem_cons_self ..) isPtr₃ isTest) ?_
  rintro _ x₄ follows₄ ⟨flag₄, represents₄, saves₄⟩
  have ready₄ := ready₃.follows follows₄
  have isPtr₄ := follows₄.knows isPtr₃
  have saves : x.memory.Saves [c] x₄.memory := by
    have first : x.memory.Saves [] x₁.memory := memory₁ ▸ .of_keeps (Memory.keeps_push _ _)
    have second : x.memory.Saves [] x₃.memory := memory₃ ▸ first.trans computes.saves
    exact (second.weaken (by simp)).trans saves₄
  have isTest₄ : x₄.values test = .bool v.truthy := (follows₄.knows isTest).value
  let Here (y : Stage) : Prop := y.memory.heap[c]? = some (.bool (if goesOn then u else v).truthy) ∧
    y.point.Represents (c :: hidden) Δ (if goesOn then vars₂ else vars₁) ∧
      x.memory.Saves [c] y.memory
  refine .aside (P := Here) (e := fun t b => if isAnd then .condBr test t b else .condBr test b t)
    goesOn
    (fun t b => ?_) (fun decided => ?_) (fun y beside => ?_)
      fun y z here retains memory follows => ?_
  · subst decides
    cases isAnd <;> cases truth : v.truthy <;> rw [truth] at isTest₄ <;>
      first | exact .taken isTest₄ | exact .passed isTest₄
  · subst decided
    exact ⟨flag₄, represents₄, saves⟩
  · have readyHere := ready₄.beside beside
    have isPtrHere : y.Knows cell (address c) :=
      ⟨Nat.lt_of_lt_of_le isPtr₄.inside beside.retains.size_le,
        (beside.retains.kept cell isPtr₄.inside).trans isPtr₄.value⟩
    refine (truthInto_takes readyHere (right readyHere (beside.represents represents₄))
      (List.mem_cons_self ..)
      isPtrHere).mono ?_
    rintro _ y' _ ⟨flag, represents', saves'⟩ rfl
    exact ⟨flag, represents', saves.trans (beside.memory ▸ saves')⟩
  · obtain ⟨flag, represents', saves'⟩ := here
    have loaded : z.memory.load (z.values cell) = .ok (.bool (if goesOn then u else v).truthy) := by
      rw [show z.values cell = address c from (follows.knows isPtr₄).value, memory]
      exact Memory.load_cell flag (by simp)
    have representsHere : z.point.Represents (c :: hidden) Δ (if goesOn then vars₂ else vars₁) :=
      represents'.keeps retains (show y.memory.Keeps [] z.memory from memory ▸ .refl _ _)
    refine .bind (.define (ready₄.follows follows).admitted (.load .i1 "logic" loaded)) ?_
    rintro r z' last ⟨_, known, memory'⟩
    have onward := ((follows₃.trans follows₄).trans follows).trans last
    refine .pure ⟨(follows₁.spends computes.spends).follows onward,
      .of_raw (v := .boolean _) rfl known,
      (last.represents representsHere (memory' ▸ .refl _ _)).unhide (by simp), ?_⟩
    rw [memory', memory]
    exact saves'.of_new (by simp [isCell])

end Operands

/-! ## All expressions -/

section Expressions

variable {W : World} {s : Setup} {Δ : Layout}

/-- An expression is computed as its kind is, on the level below. -/
theorem of_level_ok {e : ExprId} {depth : Nat} {f f' : Frame} {w w' : Work} {a : Operand}
    (ran : (Lowering.ofDepth depth).expr e f s w = .ok (a, f') w') :
    ∃ depth', exprKind (.ofDepth depth') (s.program.expr e).kind f s w = .ok (a, f') w' := by
  cases depth with
  | zero => cases ran
  | succ depth =>
    have located : locate (s.program.expr e).span
      (exprKind (.ofDepth depth) (s.program.expr e).kind)
        f s w = .ok (a, f') w' := ran
    exact ⟨depth, of_locate_ok located⟩

/-- Updates differ in what they add and in what they give. -/
theorem updateKind_eq {op : UnaryOp} (isUpdate : op.isUpdate)
    (l : Lowering) {operand : ExprId} {f : Frame}
    {w : Work} : exprKind l (.unary op operand) f s w =
      update l (op = .preInc ∨ op = .postInc) (op = .preInc ∨ op = .preDec) operand f s w := by
  cases op <;> first | rfl | cases isUpdate

theorem update?_eq {op : UnaryOp} {old new result : Float}
    (changes : op.update? old = some (new, result)) :
    (if decide (op = .preInc ∨ op = .postInc) then old + 1.0 else old - 1.0) = new ∧
      (if decide (op = .preInc ∨ op = .preDec) then new else old) = result := by
  cases op <;> cases changes <;> exact ⟨rfl, rfl⟩

theorem binary_of_result? {op : Source.BinaryOp} {σ τ : Prim} {l : Lowering} {lhs rhs : ExprId}
    (result : op.result? σ = some τ) : exprKind l (.binary op lhs rhs) = (do
      let a ← l.expr lhs
      let b ← l.expr rhs
      strictBinary op a b) := by
  cases op <;> first | rfl | (cases σ <;> cases result)

theorem binary_of_goesOn? {op : Source.BinaryOp} {left goesOn : Bool} (l : Lowering)
    (lhs rhs : ExprId)
    (decides : op.goesOn? left = some goesOn) : ∃ isAnd, exprKind l (.binary op lhs rhs) =
      logical l isAnd lhs rhs ∧ (if isAnd then left else !left) = goesOn := by
  cases op <;> cases decides
  · exact ⟨true, rfl, rfl⟩
  · exact ⟨false, rfl, rfl⟩

/-- Whenever an expression of this kind gives a value, its code computes the value. -/
def Means (W : World) (s : Setup) (Δ : Layout) (k : ExprKind) (τ : Prim) : Prop :=
  ∀ ⦃x : Stage⦄ ⦃hidden : List Nat⦄ ⦃vars vars' : Variables⦄ ⦃v : Scalar⦄, x.Ready s W Δ →
    x.point.Represents hidden Δ vars → s.program.Evaluates vars k v vars' → ∀ depth,
      Takes s W x (exprKind (.ofDepth depth) k) (x.Computes W hidden Δ τ v vars')

variable {k : ExprKind} {σ τ : Prim}

theorem Means.at_level {e : ExprId} (h : Means W s Δ (s.program.expr e).kind τ)
    {x : Stage} {hidden : List Nat} {vars vars' : Variables} {v : Scalar}
    (ready : x.Ready s W Δ) (represents : x.point.Represents hidden Δ vars)
    (gives : s.program.Evaluates vars (s.program.expr e).kind v vars') (depth : Nat) :
    Takes s W x ((Lowering.ofDepth depth).expr e) (x.Computes W hidden Δ τ v vars') := by
  intro a f w ran
  obtain ⟨depth', known⟩ := of_level_ok ran
  exact h ready represents gives depth' a f w known

theorem constant_takes {x : Stage} {hidden : List Nat} {vars : Variables} {v : Scalar}
    (value : Const) (name : String) (same : constValue value = v.value) (ready : x.Ready s W Δ)
    (represents : x.point.Represents hidden Δ vars) :
    Takes s W x (do return .raw (← Draft.const value name) v.prim.info)
      (x.Computes W hidden Δ v.prim v vars) := by
  refine .bind (.define ready.admitted (.const value name)) ?_
  rintro p x₁ follows ⟨spends, known, memory⟩
  exact .pure ⟨spends, .of_raw rfl (same ▸ known),
    follows.represents represents (memory ▸ .refl _ _), memory ▸ .refl _ _⟩

theorem number_means (value : Float) : Means W s Δ (.number value) .number := by
  intro x hidden vars vars' v ready represents gives depth
  cases gives
  exact constant_takes (v := .number value) (.float value) _ rfl ready represents

theorem bool_means (value : Bool) : Means W s Δ (.bool value) .boolean := by
  intro x hidden vars vars' v ready represents gives depth
  cases gives
  exact constant_takes (v := .boolean value) (.bool value) _ rfl ready represents

theorem text_means (text : Name) : Means W s Δ (.text text) .text := by
  intro x hidden vars vars' v ready represents gives depth
  cases gives
  refine .bind (.text _) ?_
  rintro _ x₁ _ ⟨rfl, rfl⟩
  exact constant_takes (v := .text _) (.text _) _ rfl ready represents

theorem ident_means {n : Name} (known : Table.find? n (Layout.typing Δ) = some τ) :
    Means W s Δ (.ident n) τ := by
  intro x hidden vars vars' v ready represents gives depth
  cases gives with | name holds => ?_
  obtain rfl := represents.prim holds known
  refine (readName_takes (.ofDepth depth) ready represents holds).mono ?_
  rintro a x₁ follows ⟨spends, denotes, memory⟩
  exact ⟨spends, denotes, follows.represents represents (memory ▸ .refl _ _), memory ▸ .refl _ _⟩

theorem assign_means {target value : ExprId} {n : Name}
    (isName : (s.program.expr target).kind = .ident n)
    (known : Table.find? n (Layout.typing Δ) = some τ)
    (value_means : Means W s Δ (s.program.expr value).kind τ) :
    Means W s Δ (.assign target value) τ := by
  intro x hidden vars vars' v ready represents gives depth
  cases gives with | assign isName' gives => ?_
  cases isName.symm.trans isName'
  have isAssign : exprKind (.ofDepth depth) (.assign target value) x.frame s x.work =
      ((Lowering.ofDepth depth).expr value >>= assignName (.ofDepth depth) n)
          x.frame s x.work := by
    rw [exprKind, Emit.assign, program_bind_apply, isName]
  refine .of_eq isAssign (.bind (value_means.at_level ready represents gives depth) ?_)
  rintro a x₁ follows₁ computes
  refine (assignName_takes depth (ready.follows follows₁) computes.represents
    computes.denotes known).mono ?_
  rintro b x₂ follows₂ ⟨denotes, represents', saves⟩
  exact ⟨computes.spends.follows follows₂, denotes, represents', computes.saves.trans saves⟩

theorem neg_means {operand : ExprId}
    (operand_means : Means W s Δ (s.program.expr operand).kind .number) :
    Means W s Δ (.unary .neg operand) .number := by
  intro x hidden vars vars' v ready represents gives depth
  cases gives with
  | neg gives =>
    refine .bind (operand_means.at_level ready represents gives depth) ?_
    rintro a x₁ follows₁ computes
    refine (negate_takes (ready.follows follows₁) computes.denotes).mono ?_
    rintro b x₂ follows₂ ⟨denotes, memory⟩
    exact computes.with follows₂ denotes memory
  | update _ _ changes => cases changes

theorem not_means {operand : ExprId}
    (operand_means : Means W s Δ (s.program.expr operand).kind σ) :
    Means W s Δ (.unary .not operand) .boolean := by
  intro x hidden vars vars' v ready represents gives depth
  cases gives with
  | not gives =>
    refine .bind (operand_means.at_level ready represents gives depth) ?_
    rintro a x₁ follows₁ computes
    refine .bind (truthy_takes (ready.follows follows₁) computes.denotes) ?_
    rintro p x₂ follows₂ ⟨isTest, memory⟩
    have toSecond := follows₁.trans follows₂
    refine .bind (.gives (ready.follows toSecond).admitted (.not "not" isTest.value)) ?_
    rintro q x₃ follows₃ ⟨known, memory'⟩
    exact .pure (computes.with (follows₂.trans follows₃) (.of_raw (v := .boolean _) rfl known)
      (memory'.trans memory))
  | update _ _ changes => cases changes

theorem update_means {operand : ExprId} {op : UnaryOp} {n : Name} (isUpdate : op.isUpdate)
    (isName : (s.program.expr operand).kind = .ident n) :
    Means W s Δ (.unary op operand) .number := by
  intro x hidden vars vars' v ready represents gives depth
  cases gives with
  | neg => cases isUpdate
  | not => cases isUpdate
  | update isName' holds changes =>
    cases isName.symm.trans isName'
    refine .of_eq (updateKind_eq isUpdate (.ofDepth depth)) ?_
    obtain ⟨changed, rfl⟩ := update?_eq changes
    refine (update_takes depth ready represents isName holds changed).mono ?_
    rintro r x₁ _ ⟨spends, denotes, represents', saves⟩
    exact ⟨spends, denotes, represents', saves⟩

theorem strict_means {lhs rhs : ExprId} {op : Source.BinaryOp} (result : op.result? σ = some τ)
    (left : Means W s Δ (s.program.expr lhs).kind σ)
    (right : Means W s Δ (s.program.expr rhs).kind σ) :
    Means W s Δ (.binary op lhs rhs) τ := by
  intro x hidden vars vars' v ready represents gives depth
  cases gives with
  | strict gives₁ gives₂ applied =>
    rw [binary_of_result? result]
    refine .bind (left.at_level ready represents gives₁ depth) ?_
    rintro a x₁ follows₁ computes₁
    have ready₁ := ready.follows follows₁
    refine .bind (right.at_level ready₁ computes₁.represents gives₂ depth) ?_
    rintro b x₂ follows₂ computes₂
    refine (strictBinary_takes (ready₁.follows follows₂)
      (computes₁.denotes.later follows₂ computes₂.saves)
      computes₂.denotes result applied).mono ?_
    rintro r x₃ follows₃ ⟨denotes, memory⟩
    have computes := computes₂.with follows₃ denotes memory
    exact ⟨follows₁.spends computes.spends, denotes, computes.represents,
      computes₁.saves.trans computes.saves⟩
  | decided _ stops => rw [BinaryOp.result?_of_goesOn? stops] at result; cases result
  | undecided _ goesOn => rw [BinaryOp.result?_of_goesOn? goesOn] at result; cases result

/-- The right side has a value in any case: its code stands on one of two ways. -/
theorem logical_means {lhs rhs : ExprId} {op : Source.BinaryOp} {σ' : Prim}
    (isLogical : op = .and ∨ op = .or)
    (ofLeft : s.program.HasType (Layout.typing Δ) (s.program.expr lhs).kind σ)
    (ofRight : s.program.HasType (Layout.typing Δ) (s.program.expr rhs).kind σ')
    (left : Means W s Δ (s.program.expr lhs).kind σ)
    (right : Means W s Δ (s.program.expr rhs).kind σ') :
    Means W s Δ (.binary op lhs rhs) .boolean := by
  intro x hidden vars vars' v ready represents gives depth
  have both {a u : Scalar} {vars₁ vars₂ : Variables} {goesOn : Bool}
      (gives₁ : s.program.Evaluates vars (s.program.expr lhs).kind a vars₁)
      (gives₂ : s.program.Evaluates vars₁ (s.program.expr rhs).kind u vars₂)
      (decides : op.goesOn? a.truthy = some goesOn) :
      Takes s W x (exprKind (.ofDepth depth) (.binary op lhs rhs)) (x.Computes W hidden Δ .boolean
        (.boolean (if goesOn then u else a).truthy) (if goesOn then vars₂ else vars₁)) := by
    obtain ⟨isAnd, isOp, decides⟩ := binary_of_goesOn? (.ofDepth depth) lhs rhs decides
    rw [isOp]
    exact logical_takes ready represents
      (fun ready' represents' => left.at_level ready' represents' gives₁ depth)
      (fun ready' represents' => right.at_level ready' represents' gives₂ depth) decides
  cases gives with
  | strict _ _ applied =>
    rename_i a b _ _
    rcases isLogical with rfl | rfl <;> cases a <;> cases b <;> cases applied
  | decided gives₁ stops =>
    obtain ⟨_, _, gives₂⟩ := Program.Evaluates.exists ofRight
      (gives₁.typed represents.typing ofLeft).2
    exact both gives₁ gives₂ stops
  | undecided gives₁ goesOn gives₂ => exact both gives₁ gives₂ goesOn

/-- The code for an expression computes what the expression gives. -/
theorem exprKind_means (ofType : s.program.HasType (Layout.typing Δ) k τ) : Means W s Δ k τ := by
  induction ofType with
  | number => exact number_means _
  | text => exact text_means _
  | bool => exact bool_means _
  | name known => exact ident_means known
  | assign isName known _ value => exact assign_means isName known value
  | neg _ operand => exact neg_means operand
  | not _ operand => exact not_means operand
  | update isUpdate isName _ => exact update_means isUpdate isName
  | strict result _ _ left right => exact strict_means result left right
  | logical isLogical ofLeft ofRight left right =>
    exact logical_means isLogical ofLeft ofRight left right

end Expressions

end Emit

end ShapeCompiler
