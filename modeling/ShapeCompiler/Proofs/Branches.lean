import ShapeCompiler.Proofs.Conversions
import ShapeCompiler.Proofs.Drafts
import ShapeCompiler.Proofs.Fuel

/-!
# Code whose branches come together

A part that branches opens blocks that wait, leaves its block for one of them, and writes them one
after the other. When it runs, control takes one of the ways and comes to the last block; what the
other blocks hold is written all the same.

* `Machine.resume`: the rest of a run, from some instruction of a block on;
* `Point.Leads`, `Emit.Attains`: whatever body the draft grows into, a run that is at the one point
  goes on as one that is at the other;
* `Point.Approaches`, `Emit.Heads`: control is on its way to a block that waits;
* `Emit.Spares`: code is written beside, and blocks that wait go on waiting.

A walk is stopped after too many empty blocks. So a block that control passes must not be empty,
unless it leads to the last one at once.
-/

namespace ShapeCompiler

open Source Code Work Machine

/-! ## Runs in the middle of a block -/

namespace Machine

/-- The rest of a run through a body, from behind some instructions of a block on. -/
def resume (types : TypeTable) (invoke : Invoke) (body : Code.Body) (id : BlockId) (done : Nat)
    (r : Registers) : Run Value :=
  match body.blocks[id.raw]? with
  | none => throw (.missingBlock id)
  | some k => execInsts types invoke r (k.insts.toList.drop done) >>= fun r' =>
      goOn (exitBlock r' k) fun next => walkFrom types invoke body next body.blocks.size r'

section Resume

variable {types : TypeTable} {invoke : Invoke} {c : Code.Body} {id next : BlockId} {done idle : Nat}
  {r r' : Registers} {k : Block} {st st' : State}

theorem resume_here (here : c.blocks[id.raw]? = some k) : resume types invoke c id done r =
    execInsts types invoke r (k.insts.toList.drop done) >>= fun r' =>
      goOn (exitBlock r' k) fun next => walkFrom types invoke c next c.blocks.size r' := by
  simp only [resume, here]

/-- A walk that comes to a block with instructions runs all of them. -/
theorem walkFrom_resume (keeps : ∀ f args, (invoke f args).Keeping)
    (here : c.blocks[id.raw]? = some k) (filled : ¬ k.insts.isEmpty) :
    walkFrom types invoke c id idle r = resume types invoke c id 0 r := by
  rw [walkFrom_filled keeps here filled, resume_here here]
  rfl

/-- The next instructions of the block are run. -/
theorem resume_insts {code rest : List Inst} (here : c.blocks[id.raw]? = some k)
    (parts : k.insts.toList.drop done = code ++ rest)
    (ran : execInsts types invoke r code st = .ok r' st') :
    resume types invoke c id done r st =
      resume types invoke c id (done + code.length) r' st' := by
  have later : k.insts.toList.drop (done + code.length) = rest := by
    rw [← List.drop_drop, parts, List.drop_left]
  have first : execInsts types invoke r (code ++ rest) st = execInsts types invoke r' rest st' := by
    rw [execInsts_append, ran]
  rw [resume_here here, resume_here here, parts, later]
  simp only [Bind.bind, EStateM.bind, first]

/-- Behind the last instruction the block is left. -/
theorem resume_exit (here : c.blocks[id.raw]? = some k) (all : k.insts.size ≤ done)
    (leads : exitBlock r k = .ok (.goto next)) :
    resume types invoke c id done r = walkFrom types invoke c next c.blocks.size r := by
  have none_ : k.insts.toList.drop done = [] := by simpa using all
  rw [resume_here here, none_]
  change goOn (exitBlock r k) _ = _
  rw [leads]
  rfl

end Resume

end Machine

/-- Where the exit of a block leads. -/
inductive Code.Exit.LeadsTo (values : Valuation) : Exit → BlockId → Prop
  | br (b : BlockId) : LeadsTo values (.br b) b
  | taken {c : ValueId} {t b : BlockId} (isTrue : values c = .bool true) :
    LeadsTo values (.condBr c t b) t
  | passed {c : ValueId} {t b : BlockId} (isFalse : values c = .bool false) :
    LeadsTo values (.condBr c t b) b

theorem Code.Exit.LeadsTo.exitBlock {values : Valuation} {e : Exit} {b : BlockId}
    (h : e.LeadsTo values b) {r : Registers} (same : r.read = values) {k : Block}
    (exits : k.exit = some e) : exitBlock r k = .ok (.goto b) := by
  subst same
  unfold Machine.exitBlock
  cases h with
  | br => simp only [exits]
  | taken isTrue =>
    simp only [exits, isTrue]
    rfl
  | passed isFalse =>
    simp only [exits, isFalse]
    rfl

/-! ## Blocks that wait -/

namespace Code.Draft

/-- The block is there and empty, and the next instruction goes elsewhere. -/
structure Waits (d : Draft) (b : BlockId) : Prop where
  apart : d.current ≠ some b
  block : ∃ name, d.blocks[b.raw]? = some ⟨name, #[], none⟩

/-- There is an instruction in the block. -/
def Filled (d : Draft) (b : BlockId) : Prop :=
  ∃ k, d.blocks[b.raw]? = some k ∧ ¬ k.insts.isEmpty

/-- The number of instructions in a block. -/
def written (d : Draft) (b : BlockId) : Nat := (d.blocks[b.raw]?).elim 0 (·.insts.size)

/-- The draft with an exit of a block. -/
def closed (d : Draft) (b : BlockId) (e : Exit) : Draft :=
  { d with blocks := d.blocks.modify b.raw fun k => { k with exit := some e } }

/-- The draft standing in a block. -/
def moved (d : Draft) (b : BlockId) : Draft := { d with current := some b }

variable {d d' : Draft} {b t : BlockId} {code : List Inst}

theorem Waits.opens (h : d.Waits b) : (d.moved b).Open b := by
  obtain ⟨name, there⟩ := h.block
  exact ⟨rfl, _, there, rfl⟩

theorem Waits.moved (h : d.Waits b) (apart : b ≠ t) : (d.moved t).Waits b :=
  ⟨fun here => apart (Option.some.inj here).symm, h.block⟩

theorem Waits.lt (h : d.Waits b) : b.raw < d.blocks.size := by
  obtain ⟨name, there⟩ := h.block
  exact (Array.getElem?_eq_some_iff.mp there).1

theorem Waits.ne (h : d.Waits b) (isOpen : d.Open t) : t ≠ b := by
  rintro rfl
  exact h.apart isOpen.here

theorem getElem?_modify_ne {change : Block → Block} (apart : t ≠ b) :
    (d.blocks.modify t.raw change)[b.raw]? = d.blocks[b.raw]? := by
  have : t.raw ≠ b.raw := fun same => apart (by cases t; cases b; exact congrArg _ same)
  simp [Array.getElem?_modify, this]

theorem Waits.appends (h : d.Waits b) (isOpen : d.Open t) (more : d.Appends t code d') :
    d'.Waits b := by
  obtain ⟨name, there⟩ := h.block
  refine ⟨more.current ▸ h.apart, name, ?_⟩
  rw [more.blocks, getElem?_modify_ne (h.ne isOpen), there]

/-- Instructions never go to a block that waits. -/
theorem Waits.openBlock (h : d.Waits b) :
    (openBlock.run d).1 ≠ b ∧ (openBlock.run d).2.Waits b := by
  unfold Draft.openBlock
  simp only [StateT.run_bind, StateT.run_get, pure_bind]
  split
  · rename_i t isCurrent _
    refine ⟨?_, h⟩
    rintro rfl
    exact h.apart isCurrent
  · have apart : (⟨d.blocks.size⟩ : BlockId) ≠ b := by
      rintro rfl
      exact Nat.lt_irrefl _ h.lt
    obtain ⟨name, there⟩ := h.block
    refine ⟨apart, fun here => apart (Option.some.inj here), name, ?_⟩
    exact getElem?_push_of_some there

theorem Waits.modify (h : d.Waits b) (apart : t ≠ b) (change : Block → Block) :
    ({ d with blocks := d.blocks.modify t.raw change } : Draft).Waits b := by
  obtain ⟨name, there⟩ := h.block
  exact ⟨h.apart, name, (getElem?_modify_ne apart).trans there⟩

theorem Waits.emit (h : d.Waits b) (inst : Inst) : ((emit inst).run d).2.Waits b :=
  h.openBlock.2.modify h.openBlock.1 _

theorem Waits.close (h : d.Waits b) (e : Exit) : ((close e).run d).2.Waits b :=
  h.openBlock.2.modify h.openBlock.1 _

theorem Waits.defineBy (h : d.Waits b) (ty : TyId) (name : String) (inst : ValueId → Inst) :
    ((defineBy ty name inst).run d).2.Waits b := by
  have noted : ({ d with values := d.values.push ⟨ty, name⟩ } : Draft).Waits b := ⟨h.apart, h.block⟩
  exact noted.emit (inst ⟨d.values.size⟩)

theorem Filled.extends (h : d.Filled b) (more : d.Extends d') : d'.Filled b := by
  obtain ⟨k, there, filled⟩ := h
  obtain ⟨k', there', grown⟩ := more.blocks b.raw k there
  obtain ⟨insts, isInsts⟩ := grown.insts
  exact ⟨k', there', by simp_all⟩

theorem Appends.extends (h : d.Appends b code d') (isOpen : d.Open b) : d.Extends d' := by
  obtain ⟨k, there, free⟩ := isOpen.block
  refine ⟨h.values, fun i k' there' => ?_⟩
  rw [h.blocks, Array.getElem?_modify]
  split
  · rename_i same
    subst same
    cases there.symm.trans there'
    exact ⟨_, by rw [there]; rfl, ⟨_, rfl⟩, by simp [free]⟩
  · exact ⟨k', there', .refl k'⟩

theorem Appends.block {k : Block} (h : d.Appends b code d') (there : d.blocks[b.raw]? = some k) :
    d'.blocks[b.raw]? = some { k with insts := k.insts ++ code.toArray } := by
  simp [h.blocks, Array.getElem?_modify, there]

theorem written_eq {k : Block} (there : d.blocks[b.raw]? = some k) :
    d.written b = k.insts.size := by
  simp [written, there]

/-- The block behind an exit stays as it is. -/
theorem closed_extends {k : Block} (e : Exit)
    (there : d.blocks[b.raw]? = some k) (more : (d.closed b e).Extends d') :
    d'.blocks[b.raw]? = some { k with exit := some e } := by
  have here : (d.closed b e).blocks[b.raw]? = some { k with exit := some e } := by
    simp [closed, Array.getElem?_modify, there]
  obtain ⟨k', there', grown⟩ := more.blocks b.raw _ here
  rw [there', grown.left rfl]

theorem Open.close_eq (isOpen : d.Open b) (e : Exit) :
    ((Draft.close e).run d).2 = d.closed b e :=
  isOpen.close e

theorem Open.extends_closed (isOpen : d.Open b) (e : Exit) : d.Extends (d.closed b e) := by
  obtain ⟨k, there, free⟩ := isOpen.block
  refine .of_modify d fun k' there' => ⟨⟨#[], by simp⟩, fun left => ?_⟩
  cases there.symm.trans there'
  simp [free] at left

/-- The draft with one more block that waits. -/
def withBlock (d : Draft) (name : String) : Draft :=
  { d with blocks := d.blocks.push ⟨name, #[], none⟩ }

theorem getElem?_withBlock {name : String} {k : Block} (there : d.blocks[b.raw]? = some k) :
    (d.withBlock name).blocks[b.raw]? = some k :=
  getElem?_push_of_some there

theorem Open.withBlock (h : d.Open b) (name : String) : (d.withBlock name).Open b := by
  obtain ⟨k, there, free⟩ := h.block
  exact ⟨h.here, k, getElem?_withBlock there, free⟩

theorem Waits.withBlock (h : d.Waits b) (name : String) : (d.withBlock name).Waits b := by
  obtain ⟨own, there⟩ := h.block
  exact ⟨h.apart, own, getElem?_withBlock there⟩

theorem extends_withBlock (d : Draft) (name : String) : d.Extends (d.withBlock name) :=
  .of_push d _ d.current

theorem waits_new (inside : ∀ t, d.current = some t → t.raw < d.blocks.size) (name : String) :
    (d.withBlock name).Waits ⟨d.blocks.size⟩ := by
  refine ⟨fun here => ?_, name, by simp [Draft.withBlock]⟩
  exact Nat.lt_irrefl _ (inside _ here)

theorem extends_moved (d : Draft) (b : BlockId) : d.Extends (d.moved b) :=
  ⟨⟨#[], by simp [moved]⟩, fun _ k there => ⟨k, there, .refl k⟩⟩

end Code.Draft

/-! ## Points -/

namespace Point

variable {T T' : TypeTable → Prop} {p p' p'' y : Point} {e : Exit} {d : Draft} {b : BlockId}

/-- A run that is at the point, in a body into which the draft has grown. -/
def resume (p : Point) (types : TypeTable) (invoke : Invoke) (d : Draft) : Registers → Run Value :=
  Machine.resume types invoke d.finish p.place (p.draft.written p.place)

/-- The values of the body are those of the point, and so is the memory. -/
structure At (p : Point) (r : Registers) (st : State) : Prop where
  values : r.read = p.values
  memory : st.memory = p.memory

/-- The state with the memory of the point, after some fuel was used. -/
def after (p : Point) (fuel : Nat) (st : State) : State :=
  { st with memory := p.memory, fuel := st.fuel - fuel }

/-- Whatever body the draft grows into, a run that is at the first point goes on as one that is at
the second, if there is room for the values and fuel enough. -/
structure Leads (T : TypeTable → Prop) (p p' : Point) : Prop where
  grown : p.draft.Extends p'.draft
  kept : ∀ v, v.raw < p.size → p'.values v = p.values v
  runs : ∃ fuel, ∀ types, T types → ∀ d, p'.draft.Extends d → ∀ invoke : Invoke,
    (∀ f args, (invoke f args).Keeping) → ∀ r st, p.At r st → p'.size ≤ r.size → fuel ≤ st.fuel →
    ∃ r' : Registers, p'.At r' (p'.after fuel st) ∧ r'.size = r.size ∧
      p.resume types invoke d r st = p'.resume types invoke d r' (p'.after fuel st)

/-- The second point is at the beginning of a block, and control comes there from the first, if
there is going to be an instruction. So it does where the first is at the beginning of its block and
some empty block may follow. -/
structure Approaches (T : TypeTable → Prop) (p y : Point) : Prop where
  grown : p.draft.Extends y.draft
  kept : ∀ v, v.raw < p.size → y.values v = p.values v
  runs : ∃ fuel, ∀ types, T types → ∀ d, y.draft.Extends d → d.Filled y.place → ∀ invoke : Invoke,
    (∀ f args, (invoke f args).Keeping) → ∀ r st, p.At r st → y.size ≤ r.size → fuel ≤ st.fuel →
    ∃ r' : Registers, y.At r' (y.after fuel st) ∧ r'.size = r.size ∧
      p.resume types invoke d r st = y.resume types invoke d r' (y.after fuel st) ∧
      (p.draft.written p.place = 0 → ∀ idle, walkFrom types invoke d.finish p.place
        (idle + 1) r st =
        y.resume types invoke d r' (y.after fuel st))

/-- The point at the beginning of a block that waits. -/
def entered (p : Point) (d : Draft) (b : BlockId) (waits : d.Waits b) : Point :=
  ⟨d.moved b, p.values, p.memory, b, waits.opens⟩

theorem written_entered (waits : d.Waits b) : (d.moved b).written b = 0 := by
  obtain ⟨name, there⟩ := waits.block
  have there' : (d.moved b).blocks[b.raw]? = some ⟨name, #[], none⟩ := there
  simp [Draft.written, there']

theorem after_after (p p' : Point) (m n : Nat) (st : State) :
    p'.after n (p.after m st) = p'.after (m + n) st := by
  simp only [after, Nat.sub_sub]

theorem At.after_zero {r : Registers} {st : State} (h : p.At r st) : p.after 0 st = st := by
  rw [after, ← h.memory]
  rfl

theorem Leads.size_le (h : p.Leads T p') : p.size ≤ p'.size := h.grown.size_le

theorem Leads.refl (p : Point) : p.Leads T p := by
  refine ⟨.refl _, fun _ _ => rfl, 0, fun _ _ _ _ _ _ r st here _ _ => ⟨r, ?_, rfl, ?_⟩⟩
  · rwa [here.after_zero]
  · rw [here.after_zero]

theorem Leads.trans (h : p.Leads T p') (h' : p'.Leads T p'') : p.Leads T p'' := by
  obtain ⟨m, first⟩ := h.runs
  obtain ⟨n, second⟩ := h'.runs
  refine ⟨h.grown.trans h'.grown, fun v inside => ?_, m + n, ?_⟩
  · rw [h'.kept v (Nat.lt_of_lt_of_le inside h.size_le), h.kept v inside]
  intro types admitted d more invoke keeps r st here room fuel
  obtain ⟨r₁, here₁, size₁, ran₁⟩ := first types admitted d (h'.grown.trans more)
    invoke keeps r st here
    (Nat.le_trans h'.size_le room) (by omega)
  obtain ⟨r₂, here₂, size₂, ran₂⟩ := second types admitted d more invoke keeps r₁ _ here₁ (by omega)
    (by simp only [after]; omega)
  rw [after_after] at here₂ ran₂
  exact ⟨r₂, here₂, size₂.trans size₁, ran₁.trans ran₂⟩

theorem Leads.mono (h : p.Leads T p') (fewer : ∀ types, T' types → T types) : p.Leads T' p' := by
  obtain ⟨fuel, runs⟩ := h.runs
  exact ⟨h.grown, h.kept, fuel, fun types admitted => runs types (fewer types admitted)⟩

/-- What instructions in the block do is done in every body into which the draft grows. -/
theorem Goes.resumes (h : p.Goes T p') : ∃ code, p.draft.Appends p.place code p'.draft ∧
    ∀ types, T types → ∀ d, p'.draft.Extends d → ∀ (invoke : Invoke) r st, p.At r st →
      p'.size ≤ r.size → code.length ≤ st.fuel → ∃ r' : Registers,
        p'.At r' (p'.after code.length st) ∧ r'.size = r.size ∧
        (code = [] → r' = r ∧ p'.after code.length st = st) ∧
        p.resume types invoke d r st = p'.resume types invoke d r' (p'.after code.length st) := by
  obtain ⟨code, appends, runs⟩ := h.code
  refine ⟨code, appends, fun types admitted d more invoke r st here room fuel => ?_⟩
  obtain ⟨r', values, size, ran⟩ := runs types admitted invoke r st here.values
    here.memory room fuel
  have same : code = [] → r' = r ∧ p'.after code.length st = st := by
    rintro rfl
    obtain ⟨isSame, isState⟩ := EStateM.Result.ok.inj ran
    exact ⟨isSame.symm, isState.symm⟩
  refine ⟨r', ⟨values, rfl⟩, size, same, ?_⟩
  obtain ⟨k, there, _⟩ := p.isOpen.block
  have there' := appends.block there
  obtain ⟨k', there'', grown⟩ := more.blocks _ _ there'
  obtain ⟨insts, isInsts⟩ := grown.insts
  have parts : k'.insts.toList.drop k.insts.size = code ++ insts.toList := by
    simp [isInsts]
  have second : p'.draft.written p'.place = k.insts.size + code.length := by
    rw [h.place, Draft.written_eq there']
    simp
  rw [resume, resume, Draft.written_eq there, second, h.place]
  exact resume_insts (c := d.finish) there'' parts ran

theorem Goes.leads (h : p.Goes T p') : p.Leads T p' := by
  obtain ⟨code, appends, runs⟩ := h.resumes
  refine ⟨appends.extends p.isOpen, h.kept, code.length, ?_⟩
  intro types admitted d more invoke _ r st here room fuel
  obtain ⟨r', here', size, _, ran⟩ := runs types admitted d more invoke r st here room fuel
  exact ⟨r', here', size, ran⟩

theorem Goes.filled (h : p.Goes T p') (filled : p.draft.Filled p.place) :
    p'.draft.Filled p'.place := by
  obtain ⟨code, appends, _⟩ := h.code
  rw [h.place]
  exact filled.extends (appends.extends p.isOpen)

theorem Goes.waits (h : p.Goes T p') (waits : p.draft.Waits b) : p'.draft.Waits b := by
  obtain ⟨code, appends, _⟩ := h.code
  exact waits.appends p.isOpen appends

/-- Instructions before control is on its way. -/
theorem Goes.approaches (h : p.Goes T p') (h' : p'.Approaches T y) : p.Approaches T y := by
  obtain ⟨code, appends, first⟩ := h.resumes
  obtain ⟨n, second⟩ := h'.runs
  have extends_ := appends.extends p.isOpen
  refine ⟨extends_.trans h'.grown, fun v inside => ?_, code.length + n, ?_⟩
  · rw [h'.kept v (Nat.lt_of_lt_of_le inside h.size_le), h.kept v inside]
  intro types admitted d more filled invoke keeps r st here room fuel
  have room' : p'.size ≤ r.size := Nat.le_trans h'.grown.size_le room
  obtain ⟨r₁, here₁, size₁, same, ran₁⟩ := first types admitted d (h'.grown.trans more) invoke r st
    here room' (by omega)
  obtain ⟨r₂, here₂, size₂, ran₂, enters⟩ := second types admitted d more filled invoke
    keeps r₁ _ here₁
    (by omega) (by simp only [after]; omega)
  rw [after_after] at here₂ ran₂ enters
  refine ⟨r₂, here₂, size₂.trans size₁, ran₁.trans ran₂, fun new idle => ?_⟩
  obtain ⟨k, there, _⟩ := p.isOpen.block
  have there' := appends.block there
  cases code with
  | nil =>
    -- nothing was written, so control is where it was
    obtain ⟨rfl, sameState⟩ := same rfl
    have new' : p'.draft.written p'.place = 0 := by
      rw [h.place, Draft.written_eq there', ← new, Draft.written_eq there]
      simp
    rw [← h.place, ← enters new' idle, sameState]
  | cons inst rest =>
    obtain ⟨k', there'', grown⟩ := (h'.grown.trans more).blocks _ _ there'
    obtain ⟨insts, isInsts⟩ := grown.insts
    have some_ : ¬ k'.insts.isEmpty := by simp [isInsts]
    rw [walkFrom_resume (c := d.finish) keeps there'' some_]
    rw [resume, new] at ran₁
    exact ran₁.trans ran₂

/-- The block is left for one that waits. -/
theorem Approaches.exit (leads : e.LeadsTo p.values b)
    (grown : (p.draft.closed p.place e).Extends d)
    (waits : d.Waits b) : p.Approaches T (p.entered d b waits) := by
  refine ⟨((p.isOpen.extends_closed e).trans grown).trans (d.extends_moved b),
    fun _ _ => rfl, 0, ?_⟩
  intro types _ d' more filled invoke keeps r st here _ _
  obtain ⟨k, there, _⟩ := p.isOpen.block
  have left := Draft.closed_extends e there (grown.trans ((d.extends_moved b).trans more))
  obtain ⟨k', there', some_⟩ : d'.Filled b := filled
  have exits := leads.exitBlock here.values (k := { k with exit := some e }) rfl
  have arrives (idle : Nat) : walkFrom types invoke d'.finish b idle r =
      (p.entered d b waits).resume types invoke d' r := by
    rw [walkFrom_resume (c := d'.finish) keeps there' some_, resume]
    exact congrArg (fun n => Machine.resume types invoke d'.finish b n r)
      (written_entered waits).symm
  have same : (p.entered d b waits).after 0 st = st := here.after_zero
  rw [same]
  refine ⟨r, ⟨here.values, here.memory⟩, rfl, ?_, fun new idle => ?_⟩
  · rw [← arrives, resume, Draft.written_eq there]
    exact congrFun (resume_exit (c := d'.finish) left (Nat.le_refl _) exits) st
  · have empty : k.insts.isEmpty := by simpa [Draft.written_eq there] using new
    have here : d'.finish.blocks[p.place.raw]? = some { k with exit := some e } := left
    rw [walkFrom_empty here empty, exits]
    exact congrFun (arrives idle) st

/-- The block is left for one that waits, and from there control is on its way. -/
theorem Approaches.turn (leads : e.LeadsTo p.values b) (filled : p.draft.Filled p.place)
    (grown : (p.draft.closed p.place e).Extends d) (waits : d.Waits b)
    (h : (p.entered d b waits).Approaches T y) : p.Approaches T y := by
  obtain ⟨fuel, runs⟩ := h.runs
  have before := ((p.isOpen.extends_closed e).trans grown).trans (d.extends_moved b)
  refine ⟨before.trans h.grown, fun v inside =>
    h.kept v (Nat.lt_of_lt_of_le inside before.size_le), fuel,
    ?_⟩
  intro types admitted d' more some_ invoke keeps r st here room enough
  obtain ⟨r', here', size, _, enters⟩ := runs types admitted d' more some_ invoke keeps r st
    ⟨here.values, here.memory⟩ room enough
  obtain ⟨k, there, _⟩ := p.isOpen.block
  have left := Draft.closed_extends e there
    (grown.trans ((d.extends_moved b).trans (h.grown.trans more)))
  have exits := leads.exitBlock here.values (k := { k with exit := some e }) rfl
  obtain ⟨idle, isSize⟩ : ∃ idle, d'.finish.blocks.size = idle + 1 := by
    have : p.place.raw < d'.finish.blocks.size := (Array.getElem?_eq_some_iff.mp left).1
    exact ⟨d'.finish.blocks.size - 1, by omega⟩
  refine ⟨r', here', size, ?_, fun new => ?_⟩
  · rw [resume, Draft.written_eq there]
    refine (congrFun (resume_exit (c := d'.finish) left (Nat.le_refl _) exits) st).trans ?_
    rw [isSize]
    exact enters (written_entered waits) idle
  · obtain ⟨k', there', isFilled⟩ := filled
    cases there.symm.trans there'
    rw [Draft.written_eq there] at new
    exact absurd (by simpa using new) isFilled

/-- Control comes to the block, and goes on in it. -/
theorem Approaches.join (h : p.Approaches T y) (goes : y.Goes T p')
    (filled : p'.draft.Filled p'.place) :
    p.Leads T p' := by
  obtain ⟨m, first⟩ := h.runs
  obtain ⟨n, second⟩ := goes.leads.runs
  refine ⟨h.grown.trans goes.leads.grown, fun v inside => ?_, m + n, ?_⟩
  · rw [goes.kept v (Nat.lt_of_lt_of_le inside h.grown.size_le), h.kept v inside]
  intro types admitted d more invoke keeps r st here room fuel
  have some_ : d.Filled y.place := goes.place ▸ filled.extends more
  obtain ⟨r₁, here₁, size₁, ran₁, _⟩ := first types admitted d
    (goes.leads.grown.trans more) some_ invoke
    keeps r st here (Nat.le_trans goes.size_le room) (by omega)
  obtain ⟨r₂, here₂, size₂, ran₂⟩ := second types admitted d more invoke keeps r₁ _ here₁ (by omega)
    (by simp only [after]; omega)
  rw [after_after] at here₂ ran₂
  exact ⟨r₂, here₂, size₂.trans size₁, ran₁.trans ran₂⟩

/-- The point with one more block that waits. -/
def withBlock (p : Point) (name : String) : Point :=
  ⟨p.draft.withBlock name, p.values, p.memory, p.place, p.isOpen.withBlock name⟩

theorem written_withBlock (p : Point) (name : String) :
    (p.draft.withBlock name).written p.place = p.draft.written p.place := by
  obtain ⟨k, there, _⟩ := p.isOpen.block
  rw [Draft.written_eq there, Draft.written_eq (Draft.getElem?_withBlock there)]

theorem leads_withBlock (p : Point) (name : String) : p.Leads T (p.withBlock name) := by
  refine ⟨p.draft.extends_withBlock name, fun _ _ => rfl, 0, fun _ _ _ _ _ _ r st here _ _ => ?_⟩
  have isState : (p.withBlock name).after 0 st = st := here.after_zero
  rw [isState]
  refine ⟨r, ⟨here.values, here.memory⟩, rfl, ?_⟩
  exact congrArg (fun n => Machine.resume _ _ _ p.place n r st) (p.written_withBlock name).symm

theorem Approaches.of_withBlock {name : String} (h : (p.withBlock name).Approaches T y) :
    p.Approaches T y := by
  obtain ⟨fuel, runs⟩ := h.runs
  refine ⟨(p.draft.extends_withBlock name).trans h.grown, h.kept, fuel, ?_⟩
  intro types admitted d more filled invoke keeps r st here room enough
  obtain ⟨r', here', size, ran, enters⟩ := runs types admitted d more filled invoke keeps r st
    ⟨here.values, here.memory⟩ room enough
  have same := p.written_withBlock name
  refine ⟨r', here', size, ?_, fun new => enters (same.trans new)⟩
  rw [← ran]
  exact congrArg (fun n => Machine.resume _ _ _ p.place n r st) same.symm

end Point

/-- The instruction that defines a value is in the block then. -/
theorem Code.Writing.Does.filled {T : TypeTable → Prop} {p : Point} {ty : TyId} {name : String}
    {inst : ValueId → Inst} {Q : ValueId → Point → Prop}
    (h : Does T p (Draft.defineBy ty name inst) Q) :
    Does T p (Draft.defineBy ty name inst) fun a p' => Q a p' ∧ p'.draft.Filled p'.place := by
  obtain ⟨p', draft, goes, here⟩ := h
  refine ⟨p', draft, goes, here, ?_⟩
  obtain ⟨k, there, _⟩ := p.isOpen.block
  have noted : ({ p.draft with values := p.draft.values.push ⟨ty, name⟩ } : Draft).Open p.place :=
    ⟨p.isOpen.here, p.isOpen.block⟩
  have written : ((Draft.defineBy ty name inst).run p.draft).2 = _ :=
    noted.emit (inst ⟨p.draft.values.size⟩)
  refine ⟨{ k with insts := k.insts.push (inst ⟨p.draft.values.size⟩) }, ?_, by simp⟩
  rw [draft, written, goes.place]
  simp [Array.getElem?_modify, there]

/-! ## Stages -/

namespace Stage

variable {s : Setup} {x x' x'' : Stage} {b : BlockId}

/-- The compiler goes on by steps, and control comes from the one stage to the other. -/
structure Leads (s : Setup) (x x' : Stage) : Prop where
  reaches : Reaches s x.work x'.work
  frame : x'.frame = { x.frame with draft := x'.frame.draft }
  point : x.point.Leads x'.Admits x'.point

theorem Leads.knows {v : ValueId} {val : Value} (h : x.Leads s x') (known : x.Knows v val) :
    x'.Knows v val :=
  ⟨Nat.lt_of_lt_of_le known.inside h.point.size_le, (h.point.kept v known.inside).trans known.value⟩

theorem Leads.refl (x : Stage) : x.Leads s x := ⟨.refl _, rfl, .refl _⟩

theorem Leads.trans (h : x.Leads s x') (h' : x'.Leads s x'') : x.Leads s x'' := by
  refine ⟨h.reaches.trans h'.reaches, ?_, (h.point.mono ?_).trans h'.point⟩
  · rw [h'.frame, h.frame]
  · exact fun types admitted => h'.reaches.later.extends.code.types.trans admitted

theorem Goes.leads (h : x.Goes s x') : x.Leads s x' := ⟨h.reaches, h.frame, h.point.leads⟩

/-- The block waits in the draft. -/
def Waits (x : Stage) (b : BlockId) : Prop := x.frame.draft.Waits b

/-- There is an instruction in the block. -/
def Filled (x : Stage) : Prop := x.frame.draft.Filled x.place

/-- One more block waits. -/
structure Opens (s : Setup) (x : Stage) (b : BlockId) (x' : Stage) : Prop where
  leads : x.Leads s x'
  work : x'.work = x.work
  memory : x'.memory = x.memory
  waits : x'.Waits b
  others : ∀ c, x.Waits c → b ≠ c ∧ x'.Waits c
  filled : x.Filled → x'.Filled

/-- The body goes on in another block, with `b` waiting. -/
structure Enters (x : Stage) (b : BlockId) (x' : Stage) : Prop where
  work : x'.work = x.work
  memory : x'.memory = x.memory
  knows : ∀ v val, x.Knows v val → x'.Knows v val
  waits : x'.Waits b

theorem Goes.waits (h : x.Goes s x') (waits : x.Waits b) : x'.Waits b := h.point.waits waits

theorem Goes.filled (h : x.Goes s x') (filled : x.Filled) : x'.Filled := h.point.filled filled

/-- The stage with one more block that waits. -/
def withBlock (x : Stage) (name : String) : Stage :=
  ⟨x.work, { x.frame with draft := x.frame.draft.withBlock name }, x.values, x.memory, x.place,
    x.isOpen.withBlock name⟩

theorem opens_withBlock (x : Stage) (s : Setup) (name : String) :
    x.Opens s ⟨x.frame.draft.blocks.size⟩ (x.withBlock name) := by
  have inside (t : BlockId) (here : x.frame.draft.current = some t) :
      t.raw < x.frame.draft.blocks.size := by
    obtain ⟨k, there, _⟩ := x.isOpen.block
    obtain rfl : x.place = t := Option.some.inj (x.isOpen.here.symm.trans here)
    exact (Array.getElem?_eq_some_iff.mp there).1
  refine ⟨⟨.refl _, rfl, x.point.leads_withBlock name⟩, rfl, rfl, Draft.waits_new inside name,
    fun c waits => ⟨?_, waits.withBlock name⟩,
    fun filled => filled.extends (Draft.extends_withBlock _ _)⟩
  rintro rfl
  exact Nat.lt_irrefl _ waits.lt

end Stage

namespace Emit

variable {s : Setup} {x : Stage} {α β : Type} {b : BlockId}

/-- The step succeeds, and control comes to a stage with the property, whatever ways there are. -/
def Attains (s : Setup) (x : Stage) (m : Emit α) (Q : α → Stage → Prop) : Prop :=
  ∃ a x', m x.frame s x.work = .ok (a, x'.frame) x'.work ∧ x.Leads s x' ∧ Q a x'

theorem Achieves.attains {m : Emit α} {Q : α → Stage → Prop} (h : Achieves s x m Q) :
    Attains s x m fun a x' => x.Goes s x' ∧ Q a x' := by
  obtain ⟨a, x', ran, goes, here⟩ := h
  exact ⟨a, x', ran, goes.leads, goes, here⟩

namespace Attains

theorem bind {m : Emit α} {k : α → Emit β} {Q : α → Stage → Prop} {R : β → Stage → Prop}
    (first : Attains s x m Q) (rest : ∀ a x', x.Leads s x' → Q a x' → Attains s x' (k a) R) :
    Attains s x (m >>= k) R := by
  obtain ⟨a, x₁, ran₁, leads₁, here₁⟩ := first
  obtain ⟨b, x₂, ran₂, leads₂, here₂⟩ := rest a x₁ leads₁ here₁
  refine ⟨b, x₂, ?_, leads₁.trans leads₂, here₂⟩
  change (m x.frame >>= fun result => k result.1 result.2) s x.work = _
  rw [Compile.bind_apply, ran₁]
  exact ran₂

/-- Instructions in the block, and the rest. -/
theorem goes {m : Emit α} {k : α → Emit β} {Q : α → Stage → Prop} {R : β → Stage → Prop}
    (first : Achieves s x m Q) (rest : ∀ a x', x.Goes s x' → Q a x' → Attains s x' (k a) R) :
    Attains s x (m >>= k) R :=
  first.attains.bind fun a x' _ ⟨goes, here⟩ => rest a x' goes here

theorem mono {m : Emit α} {Q R : α → Stage → Prop} (h : Attains s x m Q)
    (weaker : ∀ a x', x.Leads s x' → Q a x' → R a x') : Attains s x m R := by
  obtain ⟨a, x', ran, leads, here⟩ := h
  exact ⟨a, x', ran, leads, weaker a x' leads here⟩

theorem of_eq {m m' : Emit α} {Q : α → Stage → Prop}
    (same : m x.frame s x.work = m' x.frame s x.work)
    (h : Attains s x m' Q) : Attains s x m Q := by
  obtain ⟨a, x', ran, leads, here⟩ := h
  exact ⟨a, x', same.trans ran, leads, here⟩

theorem pure {a : α} {Q : α → Stage → Prop} (h : Q a x) : Attains s x (Pure.pure a) Q :=
  ⟨a, x, rfl, .refl x, h⟩

/-- A block is opened, and the rest. -/
theorem block {k : BlockId → Emit β} {Q : β → Stage → Prop} (name : String)
    (rest : ∀ b x', x.Opens s b x' → Attains s x' (k b) Q) :
    Attains s x (liftM (Draft.block name) >>= k) Q := by
  have opens := x.opens_withBlock s name
  obtain ⟨a, x', ran, leads, here⟩ := rest _ _ opens
  exact ⟨a, x', ran, opens.leads.trans leads, here⟩

end Attains

/-! ## Code that is written beside -/

/-- The step succeeds and writes somewhere else, and the blocks go on waiting. -/
def Spares (blocks : List BlockId) (m : Emit α) (P : α → Prop := fun _ => True) : Prop :=
  ∀ f s w, (∀ b ∈ blocks, f.draft.Waits b) → ∃ a f', m f s w = .ok (a, f') w ∧ P a ∧
    f' = { f with draft := f'.draft } ∧ f.draft.Extends f'.draft ∧ ∀ b ∈ blocks, f'.draft.Waits b

namespace Spares

variable {blocks : List BlockId} {P : α → Prop} {R : β → Prop}

theorem pure {a : α} (h : P a) : Spares blocks (Pure.pure a) P :=
  fun f _ _ waits => ⟨a, f, rfl, h, rfl, .refl _, waits⟩

theorem bind {m : Emit α} {k : α → Emit β} (first : Spares blocks m P)
    (rest : ∀ a, P a → Spares blocks (k a) R) : Spares blocks (m >>= k) R := by
  intro f s w waits
  obtain ⟨a, f₁, ran₁, known, frame₁, grown₁, waits₁⟩ := first f s w waits
  obtain ⟨b, f₂, ran₂, known₂, frame₂, grown₂, waits₂⟩ := rest a known f₁ s w waits₁
  refine ⟨b, f₂, ?_, known₂, ?_, grown₁.trans grown₂, waits₂⟩
  · change (m f >>= fun result => k result.1 result.2) s w = _
    rw [Compile.bind_apply, ran₁]
    exact ran₂
  · rw [frame₂, frame₁]

/-- A step of writing that does not enter another block. -/
theorem write {step : Writing α} (grows : Writing.Grows step)
    (stays : ∀ (d : Draft) b, d.Waits b → (step.run d).2.Waits b) : Spares blocks (liftM step) :=
  fun f _ _ waits => ⟨_, _, rfl, trivial, rfl, grows.extend f.draft, fun b inside =>
    stays _ b (waits b inside)⟩

theorem defineBy (ty : TyId) (name : String) (inst : ValueId → Inst) :
    Spares blocks (liftM (Draft.defineBy ty name inst)) :=
  write (.defineBy ty name inst) fun _ _ waits => waits.defineBy ty name inst

theorem store (value ptr : ValueId) : Spares blocks (liftM (Draft.store value ptr)) :=
  write (.emit _) fun _ _ waits => waits.emit _

theorem close (e : Exit) : Spares blocks (liftM (Draft.close e)) :=
  write (.close e) fun _ _ waits => waits.close e

/-- A block that is opened is none of those that wait. -/
theorem block (name : String) : Spares blocks (liftM (Draft.block name)) (· ∉ blocks) := by
  intro f s w waits
  refine ⟨⟨f.draft.blocks.size⟩, { f with draft := f.draft.withBlock name }, rfl,
    fun inside => ?_, rfl,
    f.draft.extends_withBlock name, fun b inside => (waits b inside).withBlock name⟩
  exact Nat.lt_irrefl _ (waits _ inside).lt

/-- Another block is entered. -/
theorem moveTo {t : BlockId} (apart : t ∉ blocks) : Spares blocks (liftM (Draft.moveTo t)) := by
  refine fun f s w waits => ⟨⟨⟩, { f with draft := f.draft.moved t }, rfl, trivial, rfl,
    f.draft.extends_moved t, fun b inside => (waits b inside).moved ?_⟩
  rintro rfl
  exact apart inside

theorem loadField (record : TyId) (ptr : ValueId) (i : Nat) (name : String) :
    Spares blocks (loadField record ptr i name) :=
  bind (defineBy _ _ _) fun _ _ => defineBy _ _ _

theorem storeField (record : TyId) (ptr : ValueId) (i : Nat) (value : ValueId) :
    Spares blocks (storeField record ptr i value) :=
  bind (defineBy _ _ _) fun _ _ => store _ _

theorem forM {k : α → Emit PUnit} (each : ∀ a, Spares blocks (k a)) (as : List α) :
    Spares blocks (as.forM k) := by
  induction as with
  | nil => exact pure trivial
  | cons a as ih => exact bind (each a) fun _ _ => ih

end Spares

/-! ## Code on the way to a block -/

/-- The step succeeds and writes code that leads to a block that waits. -/
def Heads (s : Setup) (x : Stage) (b : BlockId) (m : Emit PUnit) (Q : Work → Memory → Prop) :
    Prop :=
  ∃ (y : Stage) (f : Frame), m x.frame s x.work = .ok (⟨⟩, f) y.work ∧
    f = { x.frame with draft := f.draft } ∧ y.frame =
      { f with draft := f.draft.moved b } ∧ y.place = b ∧
    Reaches s x.work y.work ∧ x.point.Approaches y.Admits y.point ∧ Q y.work y.memory

namespace Heads

variable {Q : Work → Memory → Prop} {e : Exit} {t : BlockId} {m : Emit PUnit}

/-- Instructions in the block, and the rest. -/
theorem goes {m : Emit α} {k : α → Emit PUnit} {P : α → Stage → Prop} (first : Achieves s x m P)
    (rest : ∀ a x', x.Goes s x' → P a x' → Heads s x' b (k a) Q) : Heads s x b (m >>= k) Q := by
  obtain ⟨a, x₁, ran₁, goes₁, here₁⟩ := first
  obtain ⟨y, f, ran, frame, isFrame, place, reaches, approaches, here⟩ := rest a x₁ goes₁ here₁
  refine ⟨y, f, ?_, ?_, isFrame, place, goes₁.reaches.trans reaches, ?_, here⟩
  · change (m x.frame >>= fun result => k result.1 result.2) s x.work = _
    rw [Compile.bind_apply, ran₁]
    exact ran
  · rw [frame, goes₁.frame]
  · refine (goes₁.point.mono ?_).approaches approaches
    exact fun types admitted => reaches.later.extends.code.types.trans admitted

/-- A block is opened, and the rest. -/
theorem block {k : BlockId → Emit PUnit} (name : String)
    (rest : ∀ t x', x.Opens s t x' → Heads s x' b (k t) Q) :
    Heads s x b (liftM (Draft.block name) >>= k) Q := by
  have opens := x.opens_withBlock s name
  obtain ⟨y, f, ran, frame, isFrame, place, reaches, approaches, here⟩ := rest _ _ opens
  refine ⟨y, f, ran, ?_, isFrame, place, reaches, approaches.of_withBlock, here⟩
  rw [frame]
  rfl

/-- The block is left for the one where control is going; what is written then is beside. -/
theorem exit (leads : e.LeadsTo x.values b) (waits : x.Waits b) (spares : Spares [b] m)
    (here : Q x.work x.memory) : Heads s x b (do Draft.close e; m) Q := by
  have waits' : ((Draft.close e).run x.frame.draft).2.Waits b := Draft.Waits.close waits e
  obtain ⟨_, f, ran, _, frame, grown, stays⟩ := spares
    { x.frame with draft := ((Draft.close e).run x.frame.draft).2 } s x.work (by simpa using waits')
  have stays := stays b (by simp)
  have grown : (x.point.draft.closed x.point.place e).Extends f.draft := x.isOpen.close_eq e ▸ grown
  exact ⟨⟨x.work, { f with draft := f.draft.moved b }, x.values, x.memory, b, stays.opens⟩, f, ran,
    frame,
    rfl, rfl, .refl _, .exit leads grown stays, here⟩

/-- The block is left for another one, which is entered after what is written beside. -/
theorem turn {n : Emit PUnit} (leads : e.LeadsTo x.values t) (filled : x.Filled) (waits : x.Waits t)
    (waits' : x.Waits b) (apart : b ≠ t) (spares : Spares [t, b] n)
    (next : ∀ x', x.Enters b x' → Heads s x' b m Q) :
    Heads s x b (do Draft.close e; n; Draft.moveTo t; m) Q := by
  have both : ∀ c ∈ [t, b], ((Draft.close e).run x.frame.draft).2.Waits c := by
    simpa using ⟨Draft.Waits.close waits e, Draft.Waits.close waits' e⟩
  obtain ⟨_, f₁, ran₁, _, frame₁, grown, stays⟩ := spares
    { x.frame with draft := ((Draft.close e).run x.frame.draft).2 } s x.work both
  have isTarget := stays t (by simp)
  have grown : (x.point.draft.closed x.point.place e).Extends f₁.draft :=
    x.isOpen.close_eq e ▸ grown
  have before := ((x.isOpen.extends_closed e).trans grown).trans (f₁.draft.extends_moved t)
  obtain ⟨y, f, ran, frame, isFrame, place, reaches, approaches, here⟩ := next
    ⟨x.work, { f₁ with draft := f₁.draft.moved t }, x.values, x.memory, t, isTarget.opens⟩
    ⟨rfl, rfl, fun v val known => ⟨Nat.lt_of_lt_of_le known.inside before.size_le, known.value⟩,
      (stays b (by simp)).moved apart⟩
  refine ⟨y, f, ?_, ?_, isFrame, place, reaches, .turn leads filled grown isTarget approaches, here⟩
  · change (n >>= fun _ => liftM (Draft.moveTo t) >>= fun _ => m)
      { x.frame with draft := ((Draft.close e).run x.frame.draft).2 } s x.work = _
    rw [bind_of_ok ran₁]
    exact ran
  · have sides : { f₁ with draft := f.draft } = ({ x.frame with draft := f.draft } : Frame) := by
      rw [frame₁]
    exact frame.trans sides

/-- The block is left for the one where control is going, and nothing more is written. -/
theorem leave (leads : e.LeadsTo x.values b) (waits : x.Waits b) (here : Q x.work x.memory) :
    Heads s x b (liftM (Draft.close e)) Q := by
  simpa using exit (m := Pure.pure ⟨⟩) leads waits (.pure trivial) here

/-- The block is left for another one, which is entered at once. -/
theorem enter (leads : e.LeadsTo x.values t) (filled : x.Filled) (waits : x.Waits t)
    (waits' : x.Waits b)
    (apart : b ≠ t) (next : ∀ x', x.Enters b x' → Heads s x' b m Q) :
    Heads s x b (do Draft.close e; Draft.moveTo t; m) Q := by
  simpa using turn (n := Pure.pure ⟨⟩) leads filled waits waits' apart (.pure trivial) next

/-- Control comes to the block, where something is read. -/
theorem join {m : Emit PUnit} {out : ValueId} {address : Value} {R : Value → Work → Memory → Prop}
    (heads : Heads s x b m Q) (isOut : x.Knows out address)
    (loaded : ∀ w mem, Q w mem → ∃ val, mem.load address = .ok val ∧ R val w mem) (ty : TyId)
    (name : String) : Attains s x (do m; Draft.moveTo b; Draft.load ty out name) fun a x' =>
      ∃ val, x'.Knows a val ∧ R val x'.work x'.memory := by
  obtain ⟨y, f, ran, frame, isFrame, place, reaches, approaches, here⟩ := heads
  obtain ⟨val, isVal, result⟩ := loaded _ _ here
  have isAddress : y.values out = address := (approaches.kept out isOut.inside).trans isOut.value
  have found : y.memory.load (y.values out) = .ok val := by
    rw [isAddress, isVal]
  obtain ⟨p, draft, goes, ⟨isLoaded, memory, _⟩, filled⟩ :=
    (Writing.Does.load (T := y.Admits) (p := y.point) ty name found).filled
  have isFrame' : (y.moved p).frame = { f with draft := p.draft } := by
    change { y.frame with draft := p.draft } = _
    rw [isFrame]
  have written : (Draft.load ty out name).run (f.draft.moved b) =
      (((Draft.load ty out name).run y.point.draft).1, p.draft) := by
    rw [draft]
    exact congrArg (fun g : Frame => (Draft.load ty out name).run g.draft) isFrame.symm
  refine ⟨_, y.moved p, ?_, ⟨reaches, ?_, approaches.join goes filled⟩, val, isLoaded, ?_⟩
  · rw [bind_of_ok ran, isFrame']
    change EStateM.Result.ok (((Draft.load ty out name).run (f.draft.moved b)).1,
      { f with draft := ((Draft.load ty out name).run (f.draft.moved b)).2 }) y.work = _
    rw [written]
    rfl
  · rw [isFrame', frame]
  · change R val y.work p.memory
    rw [memory]
    exact result

end Heads

end Emit

end ShapeCompiler
