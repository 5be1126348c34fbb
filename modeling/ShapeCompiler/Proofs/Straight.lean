import Mathlib.Logic.Function.Basic
import ShapeCompiler.Proofs.Bodies
import ShapeCompiler.Proofs.Memory

/-!
# Code without branches

* `Draft.Appends`: a step of writing puts instructions at the end of the open block;
* `Runs`: what instructions do to the values of a body and to memory, whatever the fuel that is left
  and the calls around;
* `Writing.Does` and `Emit.Does`: a step of the compiler writes instructions that do something;
* `Emit.Achieves`: it also succeeds.
-/

namespace ShapeCompiler

open Source Code Work Machine

/-! ## Drafts -/

namespace Code.Draft

/-- The next instruction goes to the block. -/
structure Open (d : Draft) (b : BlockId) : Prop where
  here : d.current = some b
  block : ∃ k, d.blocks[b.raw]? = some k ∧ k.exit = none

/-- The second draft has more instructions in a block, and more values. -/
structure Appends (b : BlockId) (d : Draft) (code : List Inst) (d' : Draft) : Prop where
  func : d'.func = d.func
  current : d'.current = d.current
  blocks : d'.blocks = d.blocks.modify b.raw fun k => { k with insts := k.insts ++ code.toArray }
  values : ∃ notes, d'.values = d.values ++ notes

variable {d d' d'' : Draft} {b : BlockId} {code code' : List Inst}

theorem Open.isClosed (h : d.Open b) : d.isClosed = false := by
  obtain ⟨k, there, free⟩ := h.block
  simp [Draft.isClosed, h.here, there, free]

theorem Open.openBlock (h : d.Open b) : openBlock.run d = (b, d) := by
  unfold Draft.openBlock
  simp only [StateT.run_bind, StateT.run_get, pure_bind, h.here, h.isClosed]
  rfl

theorem Open.emit (h : d.Open b) (inst : Inst) : ((emit inst).run d).2 =
    { d with blocks := d.blocks.modify b.raw fun k => { k with insts := k.insts.push inst } } := by
  unfold Draft.emit
  rw [StateT.run_bind, h.openBlock]
  rfl

theorem Open.close (h : d.Open b) (exit : Exit) : ((close exit).run d).2 =
    { d with blocks := d.blocks.modify b.raw fun k => { k with exit := some exit } } := by
  unfold Draft.close
  rw [StateT.run_bind, h.openBlock]
  rfl

theorem Appends.refl (b : BlockId) (d : Draft) : Appends b d [] d := by
  refine ⟨rfl, rfl, ?_, #[], by simp⟩
  ext i block there
  · simp
  · simp [Array.getElem_modify]

theorem Appends.trans (h : Appends b d code d') (h' : Appends b d' code' d'') :
    Appends b d (code ++ code') d'' := by
  obtain ⟨notes, isNotes⟩ := h.values
  obtain ⟨notes', isNotes'⟩ := h'.values
  refine ⟨h'.func.trans h.func, h'.current.trans h.current, ?_, notes ++ notes', ?_⟩
  · rw [h'.blocks, h.blocks]
    ext i block there
    · simp
    · simp only [Array.getElem_modify]
      split <;> simp [Array.append_assoc]
  · rw [isNotes', isNotes, Array.append_assoc]

theorem Appends.size_le (h : Appends b d code d') : d.values.size ≤ d'.values.size := by
  obtain ⟨notes, isNotes⟩ := h.values
  simp [isNotes]

theorem Open.appends (h : d.Open b) (more : Appends b d code d') : d'.Open b := by
  obtain ⟨k, there, free⟩ := h.block
  refine ⟨more.current.trans h.here, { k with insts := k.insts ++ code.toArray }, ?_, free⟩
  simp [more.blocks, Array.getElem?_modify, there]

end Code.Draft

/-! ## Instructions -/

namespace Machine

/-- What the values of a body are. -/
abbrev Valuation := ValueId → Value

theorem Registers.read_write (r : Registers) {v : ValueId} (x : Value) (inside : v.raw < r.size) :
    (r.write v x).read = Function.update r.read v x := by
  funext u
  obtain ⟨u⟩ := u
  obtain ⟨v⟩ := v
  by_cases same : u = v
  · subst same
    simp [Registers.read, Registers.write, Array.getD_eq_getD_getElem?,
      Array.getElem?_setIfInBounds_self_of_lt inside]
  · simp [Registers.read, Registers.write, Array.getD_eq_getD_getElem?, Function.update, same,
      Array.getElem?_setIfInBounds_ne (Ne.symm same)]

@[simp] theorem Registers.size_write (r : Registers) (v : ValueId) (x : Value) :
    (r.write v x).size = r.size := by
  simp [Registers.write]

theorem useFuel_eq {st : State} {n : Nat} (fuel : st.fuel = n + 1) :
    useFuel st = .ok () { st with fuel := n } := by
  obtain ⟨memory, _, depth, log⟩ := st
  cases fuel
  rfl

theorem execInsts_append (types : TypeTable) (invoke : Invoke) (r : Registers)
    (code code' : List Inst) (st : State) :
    execInsts types invoke r (code ++ code') st =
      match execInsts types invoke r code st with
      | .ok r' st' => execInsts types invoke r' code' st'
      | .error t st' => .error t st' := by
  induction code generalizing r st with
  | nil => rfl
  | cons inst rest ih =>
    simp only [List.cons_append, execInsts, Bind.bind, EStateM.bind]
    cases useFuel st with
    | error t st' => rfl
    | ok _ st' =>
      dsimp only
      cases execInst types invoke r inst st' with
      | error t st' => rfl
      | ok r' st' => exact ih r' st'

/-- Wherever there is room for `size` values, and fuel enough, the instructions make these changes
of the values and of memory, and no other. -/
def Runs (types : TypeTable) (size : Nat) (ρ : Valuation) (mem : Memory) (code : List Inst)
    (ρ' : Valuation) (mem' : Memory) : Prop :=
  ∀ (invoke : Invoke) (r : Registers) (st : State), r.read = ρ → st.memory = mem → size ≤ r.size →
    code.length ≤ st.fuel → ∃ r' : Registers, r'.read = ρ' ∧ r'.size = r.size ∧
      execInsts types invoke r code st =
        .ok r' { st with memory := mem', fuel := st.fuel - code.length }

namespace Runs

variable {types : TypeTable} {size size' : Nat} {ρ ρ' ρ'' : Valuation} {mem mem' mem'' : Memory}
  {code code' : List Inst}

theorem nil : Runs types size ρ mem [] ρ mem := by
  intro invoke r st values memory _ _
  subst memory
  exact ⟨r, values, rfl, rfl⟩

theorem mono (h : Runs types size ρ mem code ρ' mem') (le : size ≤ size') :
    Runs types size' ρ mem code ρ' mem' :=
  fun invoke r st values memory room => h invoke r st values memory (by omega)

theorem append (h : Runs types size ρ mem code ρ' mem')
    (h' : Runs types size ρ' mem' code' ρ'' mem'') :
    Runs types size ρ mem (code ++ code') ρ'' mem'' := by
  intro invoke r st values memory room fuel
  rw [List.length_append] at fuel
  obtain ⟨r₁, values₁, size₁, ran₁⟩ := h invoke r st values memory room (by omega)
  obtain ⟨r₂, values₂, size₂, ran₂⟩ := h' invoke r₁
    { st with memory := mem', fuel := st.fuel - code.length } values₁ rfl (by omega) (by
      dsimp only
      omega)
  refine ⟨r₂, values₂, size₂.trans size₁, ?_⟩
  rw [execInsts_append, ran₁]
  dsimp only
  rw [ran₂, List.length_append, Nat.sub_sub]

/-- One instruction. -/
theorem single {inst : Inst}
    (h : ∀ (invoke : Invoke) (r : Registers) (st : State), r.read = ρ → st.memory = mem →
      size ≤ r.size → ∃ r' : Registers, r'.read = ρ' ∧ r'.size = r.size ∧
        execInst types invoke r inst st = .ok r' { st with memory := mem' }) :
    Runs types size ρ mem [inst] ρ' mem' := by
  intro invoke r st values memory room fuel
  obtain ⟨r', values', sameSize, ran⟩ := h invoke r { st with fuel := st.fuel - 1 }
    values memory room
  refine ⟨r', values', sameSize, ?_⟩
  obtain ⟨n, isFuel⟩ : ∃ n, st.fuel = n + 1 := ⟨st.fuel - 1, by simp at fuel; omega⟩
  have used := useFuel_eq isFuel
  have isRest : n = st.fuel - 1 := by omega
  rw [isRest] at used
  simp only [execInsts, Bind.bind, EStateM.bind, used, ran]
  rfl

end Runs

end Machine

/-! ## Writing -/

/-- A draft in which a block is open, with the values and the memory at its end when it runs. -/
structure Point where
  draft : Draft
  values : Valuation
  memory : Memory
  place : BlockId
  isOpen : draft.Open place

namespace Point

variable {T : TypeTable → Prop} {p p' p'' : Point}

/-- The number of values so far. -/
def size (p : Point) : Nat := p.draft.values.size

/-- A value of the draft, and what it is. -/
structure Knows (p : Point) (v : ValueId) (x : Value) : Prop where
  inside : v.raw < p.size
  value : p.values v = x

/-- Instructions that lead from the one point to the other, with any table of types that is
admitted. -/
structure Goes (T : TypeTable → Prop) (p p' : Point) : Prop where
  place : p'.place = p.place
  code : ∃ code, p.draft.Appends p.place code p'.draft ∧ ∀ types, T types →
    Runs types p'.size p.values p.memory code p'.values p'.memory
  kept : ∀ v, v.raw < p.size → p'.values v = p.values v

theorem Goes.size_le (h : p.Goes T p') : p.size ≤ p'.size := by
  obtain ⟨code, appends, _⟩ := h.code
  exact appends.size_le

theorem Goes.knows {v : ValueId} {x : Value} (h : p.Goes T p') (known : p.Knows v x) :
    p'.Knows v x :=
  ⟨Nat.lt_of_lt_of_le known.inside h.size_le, (h.kept v known.inside).trans known.value⟩

theorem Goes.refl (p : Point) : p.Goes T p :=
  ⟨rfl, ⟨[], .refl _ _, fun _ _ => .nil⟩, fun _ _ => rfl⟩

theorem Goes.trans (h : p.Goes T p') (h' : p'.Goes T p'') : p.Goes T p'' := by
  obtain ⟨code, appends, runs⟩ := h.code
  obtain ⟨code', appends', runs'⟩ := h'.code
  refine ⟨h'.place.trans h.place, ⟨code ++ code', ?_, ?_⟩, ?_⟩
  · rw [h.place] at appends'
    exact appends.trans appends'
  · intro types admitted
    exact ((runs types admitted).mono h'.size_le).append (runs' types admitted)
  · intro v inside
    rw [h'.kept v (Nat.lt_of_lt_of_le inside h.size_le), h.kept v inside]

theorem Goes.mono {T' : TypeTable → Prop} (h : p.Goes T p') (fewer : ∀ types, T' types → T types) :
    p.Goes T' p' := by
  obtain ⟨code, appends, runs⟩ := h.code
  exact ⟨h.place, ⟨code, appends, fun types admitted => runs types (fewer types admitted)⟩, h.kept⟩

end Point

/-- The step writes instructions that lead to a point with the property. -/
def Code.Writing.Does {α : Type} (T : TypeTable → Prop) (p : Point) (m : Writing α)
    (Q : α → Point → Prop) : Prop :=
  ∃ p' : Point, p'.draft = (m.run p.draft).2 ∧ p.Goes T p' ∧ Q (m.run p.draft).1 p'

namespace Code.Writing.Does

variable {T : TypeTable → Prop} {p : Point} {α β : Type}

theorem pure {a : α} {Q : α → Point → Prop} (h : Q a p) : Does T p (Pure.pure a) Q :=
  ⟨p, rfl, .refl p, h⟩

theorem bind {m : Writing α} {k : α → Writing β} {Q : α → Point → Prop} {R : β → Point → Prop}
    (first : Does T p m Q) (rest : ∀ a p', p.Goes T p' → Q a p' → Does T p' (k a) R) :
    Does T p (m >>= k) R := by
  obtain ⟨p₁, draft₁, goes₁, here₁⟩ := first
  obtain ⟨p₂, draft₂, goes₂, here₂⟩ := rest _ p₁ goes₁ here₁
  refine ⟨p₂, ?_, goes₁.trans goes₂, ?_⟩
  · rw [draft₂, draft₁]
    rfl
  · rw [draft₁] at here₂
    exact here₂

theorem mono {m : Writing α} {Q R : α → Point → Prop} (h : Does T p m Q)
    (weaker : ∀ a p', p.Goes T p' → Q a p' → R a p') : Does T p m R := by
  obtain ⟨p', draft, goes, here⟩ := h
  exact ⟨p', draft, goes, weaker _ p' goes here⟩

/-- Steps for the members of a list, with an invariant of the members dealt with. -/
theorem forM {k : α → Writing PUnit} (I : List α → Point → Prop) (as : List α) (start : I [] p)
    (step : ∀ done a rest, as = done ++ a :: rest → ∀ p', p.Goes T p' → I done p' →
      Does T p' (k a) fun _ => I (done ++ [a])) :
    Does T p (as.forM k) fun _ => I as := by
  suffices general : ∀ rest done, as = done ++ rest → ∀ p', p.Goes T p' → I done p' →
      Does T p' (rest.forM k) fun _ => I as from general as [] rfl p (.refl p) start
  intro rest
  induction rest with
  | nil =>
    intro done parts p' _ here
    rw [List.append_nil] at parts
    subst parts
    exact .pure here
  | cons a rest ih =>
    intro done parts p' goes here
    refine .bind (step done a rest parts p' goes here) fun _ p'' goes' here' => ?_
    exact ih (done ++ [a]) (by simp [parts]) p'' (goes.trans goes') here'

/-- An instruction that defines no value. -/
theorem emit {inst : Inst} {mem : Memory} {Q : PUnit → Point → Prop}
    (runs : ∀ types, T types → Runs types p.size p.values p.memory [inst] p.values mem)
    (h : ∀ p' : Point, p'.values = p.values → p'.memory = mem → p'.size = p.size → Q ⟨⟩ p') :
    Does T p (Draft.emit inst) Q := by
  have written := p.isOpen.emit inst
  have appends : p.draft.Appends p.place [inst] ((Draft.emit inst).run p.draft).2 := by
    rw [written]
    exact ⟨rfl, rfl, by simp, #[], by simp⟩
  have sameSize : ((Draft.emit inst).run p.draft).2.values.size = p.size := by
    rw [written]
    rfl
  refine ⟨⟨_, p.values, mem, p.place, p.isOpen.appends appends⟩, rfl, ?_, h _ rfl rfl sameSize⟩
  exact ⟨rfl, ⟨[inst], appends, fun types admitted =>
    (runs types admitted).mono (Nat.le_of_eq sameSize.symm)⟩,
    fun _ _ => rfl⟩

/-- An instruction that defines a value. -/
theorem defineBy {ty : TyId} {name : String} {inst : ValueId → Inst} {x : Value} {mem : Memory}
    {Q : ValueId → Point → Prop}
    (runs : ∀ types, T types → ∀ (invoke : Invoke) (r : Registers) (st : State),
      r.read = p.values → st.memory = p.memory → execInst types invoke r (inst ⟨p.size⟩) st =
        .ok (r.write ⟨p.size⟩ x) { st with memory := mem })
    (h : ∀ p' : Point, p'.Knows ⟨p.size⟩ x → p'.memory = mem → p'.size = p.size + 1 →
      Q ⟨p.size⟩ p') :
    Does T p (Draft.defineBy ty name inst) Q := by
  have noted : ({ p.draft with values := p.draft.values.push ⟨ty, name⟩ } : Draft).Open p.place :=
    ⟨p.isOpen.here, p.isOpen.block⟩
  have result : (Draft.defineBy ty name inst).run p.draft = (⟨p.size⟩, { p.draft with
      values := p.draft.values.push ⟨ty, name⟩
      blocks := p.draft.blocks.modify p.place.raw fun k =>
        { k with insts := k.insts.push (inst ⟨p.size⟩) } }) := by
    have written := noted.emit (inst ⟨p.size⟩)
    exact Prod.ext rfl written
  have appends : p.draft.Appends p.place [inst ⟨p.size⟩]
      ((Draft.defineBy ty name inst).run p.draft).2 := by
    rw [result]
    exact ⟨rfl, rfl, by simp, #[⟨ty, name⟩], by simp⟩
  have size : ((Draft.defineBy ty name inst).run p.draft).2.values.size = p.size + 1 := by
    rw [result]
    simp [Point.size]
  refine ⟨⟨_, Function.update p.values ⟨p.size⟩ x, mem, p.place, p.isOpen.appends appends⟩, rfl,
    ⟨rfl, ⟨_, appends, fun types admitted => ?_⟩, ?_⟩, ?_⟩
  · refine .single fun invoke r st values memory room => ?_
    refine ⟨_, ?_, r.size_write _ _, runs types admitted invoke r st values memory⟩
    have inside : p.size < r.size := Nat.lt_of_lt_of_le (by simp [Point.size, size]) room
    rw [r.read_write (v := ⟨p.size⟩) x inside, values]
  · intro v inside
    refine Function.update_of_ne ?_ _ _
    rintro rfl
    simp at inside
  · refine h _ ⟨?_, by simp⟩ rfl size
    simp [Point.size, size]

/-! Each instruction. -/

theorem const (value : Const) (name : String) :
    Does T p (Draft.const value name) fun a p' =>
      p'.Knows a (constValue value) ∧ p'.memory = p.memory ∧ p'.size = p.size + 1 := by
  refine .defineBy (fun _ _ _ _ _ _ memory => ?_) fun _ known memory size => ⟨known, memory, size⟩
  rw [← memory]
  rfl

theorem alloc {ty : TyId} {zero : Value} (name : String)
    (isZero : ∀ types, T types → zeroValue types ty = zero) :
    Does T p (Draft.alloc ty name) fun a p' =>
      p'.Knows a (address p.memory.heap.size) ∧ p'.memory = p.memory.push zero ∧
      p'.size = p.size + 1 := by
  refine .defineBy (fun types admitted _ _ _ _ memory => ?_)
    fun _ known memory size => ⟨known, memory, size⟩
  rw [← memory, ← isZero types admitted]
  rfl

theorem load {ptr : ValueId} {x : Value} (ty : TyId) (name : String)
    (loaded : p.memory.load (p.values ptr) = .ok x) :
    Does T p (Draft.load ty ptr name) fun a p' =>
      p'.Knows a x ∧ p'.memory = p.memory ∧ p'.size = p.size + 1 := by
  refine .defineBy (fun _ _ _ r st values memory => ?_) fun _ known memory size =>
    ⟨known, memory, size⟩
  rw [← values, ← memory] at loaded
  have ran : loadValue (r.read ptr) st = .ok x st := by
    change Run.ofExcept (st.memory.load (r.read ptr)) st = _
    rw [loaded]
    rfl
  simp only [execInst, Bind.bind, EStateM.bind, ran]
  rw [← memory]
  rfl

theorem store {value ptr : ValueId} {mem : Memory}
    (stored : p.memory.store (p.values ptr) (p.values value) = .ok mem) :
    Does T p (Draft.store value ptr) fun _ p' =>
      p'.values = p.values ∧ p'.memory = mem ∧ p'.size = p.size := by
  refine .emit (fun _ _ => .single fun _ r st values memory _ => ⟨r, values, rfl, ?_⟩)
    fun _ values memory size => ⟨values, memory, size⟩
  rw [← values, ← memory] at stored
  have ran : storeValue (r.read ptr) (r.read value) st = .ok () { st with memory := mem } := by
    rw [storeValue_eq, stored]
  simp only [execInst, Bind.bind, EStateM.bind, ran]
  rfl

theorem fieldAddr {ptr : ValueId} {q : Pointer} (ty : TyId) (i : Nat) (name : String)
    (isPtr : p.values ptr = .ptr q) :
    Does T p (Draft.fieldAddr ty ptr i name) fun a p' =>
      p'.Knows a (.ptr (q.child i)) ∧ p'.memory = p.memory ∧ p'.size = p.size + 1 := by
  refine .defineBy (fun _ _ _ r _ values memory => ?_) fun _ known memory size =>
    ⟨known, memory, size⟩
  rw [← values] at isPtr
  simp only [execInst, isPtr]
  rw [← memory]
  rfl

theorem elemAddr {ptr index : ValueId} {q : Pointer} {word : Int64} {i : Nat} (ty : TyId)
    (name : String) (isPtr : p.values ptr = .ptr q) (isWord : p.values index = .int word)
    (isIndex : elementIndex word = .ok i) :
    Does T p (Draft.elemAddr ty ptr index name) fun a p' =>
      p'.Knows a (.ptr (q.child i)) ∧ p'.memory = p.memory ∧ p'.size = p.size + 1 := by
  refine .defineBy (fun _ _ _ r st values memory => ?_) fun _ known memory size =>
    ⟨known, memory, size⟩
  rw [← values] at isPtr isWord
  simp only [execInst, isPtr, isWord, Value.asInt, Value.asPointer]
  change (Run.ofExcept (elementIndex word) >>= fun i =>
    Pure.pure (r.write ⟨p.size⟩ (.ptr (q.child i)))) st = _
  rw [isIndex, ← memory]
  rfl

theorem compare {lhs rhs : ValueId} {pred : Predicate} {answer : Bool} (name : String)
    (compared : compareValues pred (p.values lhs) (p.values rhs) = .ok answer) :
    Does T p (Draft.compare pred lhs rhs name) fun a p' =>
      p'.Knows a (.bool answer) ∧ p'.memory = p.memory ∧ p'.size = p.size + 1 := by
  refine .defineBy (fun _ _ _ r _ values memory => ?_) fun _ known memory size =>
    ⟨known, memory, size⟩
  rw [← values] at compared
  simp only [execInst, compared]
  rw [← memory]
  rfl

theorem not {value : ValueId} {b : Bool} (name : String) (isBool : p.values value = .bool b) :
    Does T p (Draft.not value name) fun a p' =>
      p'.Knows a (.bool !b) ∧ p'.memory = p.memory ∧ p'.size = p.size + 1 := by
  refine .defineBy (fun _ _ _ r _ values memory => ?_) fun _ known memory size =>
    ⟨known, memory, size⟩
  rw [← values] at isBool
  simp only [execInst, isBool]
  rw [← memory]
  rfl

end Code.Writing.Does

/-! ## Compiling -/

/-- A body being compiled, with its values and the memory when it runs. -/
structure Stage where
  work : Work
  frame : Frame
  values : Valuation
  memory : Memory
  place : BlockId
  isOpen : frame.draft.Open place

namespace Stage

variable {s : Setup} {x x' x'' : Stage}

def point (x : Stage) : Point := ⟨x.frame.draft, x.values, x.memory, x.place, x.isOpen⟩

/-- The stage with another point. -/
def moved (x : Stage) (p : Point) : Stage :=
  ⟨x.work, { x.frame with draft := p.draft }, p.values, p.memory, p.place, p.isOpen⟩

/-- The stage with another state of the compilation. -/
def later (x : Stage) (w : Work) : Stage := { x with work := w }

/-- The tables of types that come from those of the stage. -/
def Admits (x : Stage) (types : TypeTable) : Prop := x.work.code.types.Grows types

/-- The compiler goes on by steps and writes instructions that lead from the one stage to the
other. -/
structure Goes (s : Setup) (x x' : Stage) : Prop where
  reaches : Reaches s x.work x'.work
  frame : x'.frame = { x.frame with draft := x'.frame.draft }
  point : x.point.Goes x'.Admits x'.point

theorem Goes.later (h : x.Goes s x') : Later s x.work x'.work := h.reaches.later

theorem Goes.refl (x : Stage) : x.Goes s x := ⟨.refl _, rfl, .refl _⟩

theorem Goes.trans (h : x.Goes s x') (h' : x'.Goes s x'') : x.Goes s x'' := by
  refine ⟨h.reaches.trans h'.reaches, ?_, (h.point.mono ?_).trans h'.point⟩
  · rw [h'.frame, h.frame]
  · exact fun types admitted => h'.later.extends.code.types.trans admitted

/-- A value of the body, and what it is. -/
def Knows (x : Stage) (v : ValueId) (val : Value) : Prop := x.point.Knows v val

def size (x : Stage) : Nat := x.point.size

theorem Goes.knows {v : ValueId} {val : Value} (h : x.Goes s x') (known : x.Knows v val) :
    x'.Knows v val := h.point.knows known

theorem Goes.env (h : x.Goes s x') : x'.frame.env = x.frame.env := by
  rw [h.frame]

end Stage

namespace Emit

variable {s : Setup} {x : Stage} {α β : Type}

/-- Where the step succeeds, it leads to a stage with the property. -/
def Does (s : Setup) (x : Stage) (m : Emit α) (Q : α → Stage → Prop) : Prop :=
  ∀ a f w, m x.frame s x.work = .ok (a, f) w →
    ∃ x' : Stage, x'.frame = f ∧ x'.work = w ∧ x.Goes s x' ∧ Q a x'

namespace Does

theorem pure {a : α} {Q : α → Stage → Prop} (h : Q a x) : Does s x (Pure.pure a) Q := by
  intro a f w ran
  cases ran
  exact ⟨x, rfl, rfl, .refl x, h⟩

theorem bind {m : Emit α} {k : α → Emit β} {Q : α → Stage → Prop} {R : β → Stage → Prop}
    (first : Does s x m Q) (rest : ∀ a x', x.Goes s x' → Q a x' → Does s x' (k a) R) :
    Does s x (m >>= k) R := by
  intro b f w ran
  change (m x.frame >>= fun result => k result.1 result.2) s x.work = _ at ran
  rw [Compile.bind_apply] at ran
  cases ran₁ : m x.frame s x.work with
  | error e w₁ => simp [ran₁] at ran
  | ok result w₁ =>
    obtain ⟨a, f₁⟩ := result
    rw [ran₁] at ran
    obtain ⟨x₁, rfl, rfl, goes₁, here₁⟩ := first a f₁ w₁ ran₁
    obtain ⟨x₂, isFrame, isWork, goes₂, here₂⟩ := rest a x₁ goes₁ here₁ b f w ran
    exact ⟨x₂, isFrame, isWork, goes₁.trans goes₂, here₂⟩

theorem mono {m : Emit α} {Q R : α → Stage → Prop} (h : Does s x m Q)
    (weaker : ∀ a x', x.Goes s x' → Q a x' → R a x') : Does s x m R := by
  intro a f w ran
  obtain ⟨x', isFrame, isWork, goes, here⟩ := h a f w ran
  exact ⟨x', isFrame, isWork, goes, weaker a x' goes here⟩

/-- A part that writes nothing. -/
theorem lift {c : Compile α} {Q : α → Work → Prop} {R : α → Stage → Prop}
    (ends : Compile.Ends s x.work c Q)
    (h : ∀ a w, Reaches s x.work w → Q a w → R a (x.later w)) : Does s x (liftM c) R := by
  intro a f w ran
  change (c >>= fun a => Pure.pure (a, x.frame)) s x.work = _ at ran
  rw [Compile.bind_apply] at ran
  cases ran₁ : c s x.work with
  | error e w₁ => simp [ran₁] at ran
  | ok b w₁ =>
    rw [ran₁] at ran
    cases ran
    obtain ⟨reaches, here⟩ := ends.of_ok ran₁
    exact ⟨x.later w, rfl, rfl, ⟨reaches, rfl, .refl _⟩, h a w reaches here⟩

/-- A step of writing. -/
theorem write {step : Writing α} {Q : α → Point → Prop} {R : α → Stage → Prop}
    (does : Writing.Does x.Admits x.point step Q)
    (h : ∀ a p, x.point.Goes x.Admits p → Q a p → R a (x.moved p)) : Does s x (liftM step) R := by
  intro a f w ran
  obtain ⟨p, draft, goes, here⟩ := does
  cases ran
  refine ⟨x.moved p, ?_, rfl, ⟨.refl _, rfl, goes⟩, h _ p goes here⟩
  simp only [Stage.moved, draft]
  rfl

theorem write_bind {step : Writing α} {k : α → Emit β} {Q : α → Point → Prop}
    {R : β → Stage → Prop} (does : Writing.Does x.Admits x.point step Q)
    (rest : ∀ a p, x.point.Goes x.Admits p → Q a p → Does s (x.moved p) (k a) R) :
    Does s x (liftM step >>= k) R :=
  bind (Q := fun a x' => ∃ p, x' = x.moved p ∧ x.point.Goes x.Admits p ∧ Q a p)
    (write does fun _ p goes here => ⟨p, rfl, goes, here⟩)
    (by
      rintro a _ - ⟨p, rfl, goes, here⟩
      exact rest a p goes here)

theorem lift_bind {c : Compile α} {k : α → Emit β} {Q : α → Work → Prop} {R : β → Stage → Prop}
    (ends : Compile.Ends s x.work c Q)
    (rest : ∀ a w, Reaches s x.work w → Q a w → Does s (x.later w) (k a) R) :
    Does s x (liftM c >>= k) R :=
  bind (Q := fun a x' => ∃ w, x' = x.later w ∧ Reaches s x.work w ∧ Q a w)
    (lift ends fun _ w there here => ⟨w, rfl, there, here⟩)
    (by
      rintro a _ - ⟨w, rfl, there, here⟩
      exact rest a w there here)

/-- A part that writes nothing and fails. -/
theorem fail {c : Compile α} {Q : α → Stage → Prop}
    (ends : Compile.Ends s x.work c fun _ _ => False) : Does s x (liftM c) Q :=
  lift ends fun _ _ _ never => never.elim

/-- A part that changes nothing. -/
theorem read {m : Emit α} {Q : α → Stage → Prop}
    (same : ∀ a f w, m x.frame s x.work = .ok (a, f) w → f = x.frame ∧ w = x.work ∧ Q a x) :
    Does s x m Q := by
  intro a f w ran
  obtain ⟨rfl, rfl, here⟩ := same a f w ran
  exact ⟨x, rfl, rfl, .refl x, here⟩

theorem get_bind {k : Frame → Emit α} {Q : α → Stage → Prop} (h : Does s x (k x.frame) Q) :
    Does s x (get >>= k) Q := h

theorem ite {c : Prop} [Decidable c] {m m' : Emit α} {Q : α → Stage → Prop}
    (h : c → Does s x m Q) (h' : ¬ c → Does s x m' Q) : Does s x (if c then m else m') Q := by
  split
  · exact h ‹_›
  · exact h' ‹_›

/-- Steps for the members of a list, with an invariant of the members dealt with. -/
theorem forM {k : α → Emit PUnit} (I : List α → Stage → Prop) (as : List α) (start : I [] x)
    (step : ∀ done a rest, as = done ++ a :: rest → ∀ x', x.Goes s x' → I done x' →
      Does s x' (k a) fun _ => I (done ++ [a])) :
    Does s x (as.forM k) fun _ => I as := by
  suffices general : ∀ rest done, as = done ++ rest → ∀ x', x.Goes s x' → I done x' →
      Does s x' (rest.forM k) fun _ => I as from general as [] rfl x (.refl x) start
  intro rest
  induction rest with
  | nil =>
    intro done parts x' _ here
    rw [List.append_nil] at parts
    subst parts
    exact .pure here
  | cons a rest ih =>
    intro done parts x' goes here
    refine .bind (step done a rest parts x' goes here) fun _ x'' goes' here' => ?_
    exact ih (done ++ [a]) (by simp [parts]) x'' (goes.trans goes') here'

end Does

/-- The step succeeds and leads to a stage with the property. -/
def Achieves (s : Setup) (x : Stage) (m : Emit α) (Q : α → Stage → Prop) : Prop :=
  ∃ a x', m x.frame s x.work = .ok (a, x'.frame) x'.work ∧ x.Goes s x' ∧ Q a x'

/-- The step only writes, and succeeds. -/
def Writes (m : Emit α) : Prop := ∀ f s w, ∃ a f', m f s w = .ok (a, f') w

namespace Writes

variable {β : Type}

theorem pure (a : α) : Writes (Pure.pure a) := fun f _ _ => ⟨a, f, rfl⟩

theorem write (step : Writing α) : Writes (liftM step) := fun _ _ _ => ⟨_, _, rfl⟩

theorem bind {m : Emit α} {k : α → Emit β} (first : Writes m) (rest : ∀ a, Writes (k a)) :
    Writes (m >>= k) := by
  intro f s w
  obtain ⟨a, f₁, ran₁⟩ := first f s w
  obtain ⟨b, f₂, ran₂⟩ := rest a f₁ s w
  refine ⟨b, f₂, ?_⟩
  change (m f >>= fun result => k result.1 result.2) s w = _
  rw [Compile.bind_apply, ran₁]
  exact ran₂

theorem storeField (record : TyId) (ptr : ValueId) (i : Nat) (value : ValueId) :
    Writes (storeField record ptr i value) := .bind (.write _) fun _ => .write _

theorem loadField (record : TyId) (ptr : ValueId) (i : Nat) (name : String) :
    Writes (loadField record ptr i name) := .bind (.write _) fun _ => .write _

end Writes

theorem Does.achieves {x : Stage} {m : Emit α} {Q : α → Stage → Prop} (h : Does s x m Q)
    (writes : Writes m) : Achieves s x m Q := by
  obtain ⟨a, f, ran⟩ := writes x.frame s x.work
  obtain ⟨x', rfl, isWork, goes, here⟩ := h a f x.work ran
  refine ⟨a, x', ?_, goes, here⟩
  rw [isWork]
  exact ran

namespace Achieves

variable {β : Type} {x : Stage}

theorem bind {m : Emit α} {k : α → Emit β} {Q : α → Stage → Prop} {R : β → Stage → Prop}
    (first : Achieves s x m Q) (rest : ∀ a x', x.Goes s x' → Q a x' → Achieves s x' (k a) R) :
    Achieves s x (m >>= k) R := by
  obtain ⟨a, x₁, ran₁, goes₁, here₁⟩ := first
  obtain ⟨b, x₂, ran₂, goes₂, here₂⟩ := rest a x₁ goes₁ here₁
  refine ⟨b, x₂, ?_, goes₁.trans goes₂, here₂⟩
  change (m x.frame >>= fun result => k result.1 result.2) s x.work = _
  rw [Compile.bind_apply, ran₁]
  exact ran₂

theorem of_eq {m m' : Emit α} {Q : α → Stage → Prop}
    (same : m x.frame s x.work = m' x.frame s x.work)
    (h : Achieves s x m' Q) : Achieves s x m Q := by
  obtain ⟨a, x', ran, goes, here⟩ := h
  exact ⟨a, x', same.trans ran, goes, here⟩

theorem pure {a : α} {Q : α → Stage → Prop} (h : Q a x) : Achieves s x (Pure.pure a) Q :=
  ⟨a, x, rfl, .refl x, h⟩

/-- Steps for the members of a list, with an invariant of the members dealt with. -/
theorem forM {k : α → Emit PUnit} (I : List α → Stage → Prop) (as : List α) (start : I [] x)
    (step : ∀ done a rest, as = done ++ a :: rest → ∀ x', x.Goes s x' → I done x' →
      Achieves s x' (k a) fun _ => I (done ++ [a])) :
    Achieves s x (as.forM k) fun _ => I as := by
  suffices general : ∀ rest done, as = done ++ rest → ∀ x', x.Goes s x' → I done x' →
      Achieves s x' (rest.forM k) fun _ => I as from general as [] rfl x (.refl x) start
  intro rest
  induction rest with
  | nil =>
    intro done parts x' _ here
    rw [List.append_nil] at parts
    subst parts
    exact .pure here
  | cons a rest ih =>
    intro done parts x' goes here
    refine .bind (step done a rest parts x' goes here) fun _ x'' goes' here' => ?_
    exact ih (done ++ [a]) (by simp [parts]) x'' (goes.trans goes') here'

end Achieves

end Emit

end ShapeCompiler
