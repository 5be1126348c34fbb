import ShapeCompiler.Machine.Run

/-!
# Runs that can be evaluated

A walk through the blocks of a body ends because of its fuel, so it does not compute. Most bodies
have one block.

* `invokeStraight`: calls that run the first block only, and give up where a body goes on or leads
  outside;
* `invoke_of_straight`: what they come to without giving up is what calls come to.
-/

namespace ShapeCompiler.Machine

open Code

/-- Runs the first block of a body, and gives up if it leads on. -/
def execFirst (types : TypeTable) (invoke : Invoke) (body : Body) (args : List Value) : Run Value :=
  let count := body.values.size
  let r := (args.take count ++ List.replicate (count - args.length) Value.undef).toArray
  fun s => match body.blocks[0]? with
    | none => .error .nestingLimit s
    | some block =>
      match execInsts types invoke r block.insts.toList s with
      | .error t s => .error t s
      | .ok r s =>
        match exitBlock r block with
        | .ok (.leave v) => .ok v s
        | _ => .error .nestingLimit s

/-- Carries out a call, and gives up where a body leads on or outside. -/
def invokeStraight (im : Image) : Nat → Invoke
  | levels + 1, .function id, args =>
    match im.code.function? id with
    | none => throw .nestingLimit
    | some f =>
      if args.length ≠ f.params.length then
        throw (.arity f.name f.params.length args.length)
      else
        match f.body with
        | none => throw .nestingLimit
        | some body => do
          if maxDepth ≤ (← get).depth then throw .stackOverflow
          nested (execFirst im.code.types (invokeStraight im levels) body args)
  | _, _, _ => throw .nestingLimit

/-- The first run ends as the second does, unless it gives up. -/
def Run.Follows {α : Type} (m m' : Run α) : Prop :=
  ∀ s, m s = m' s ∨ ∃ s', m s = .error .nestingLimit s'

namespace Run.Follows

variable {α β : Type}

theorem refl (m : Run α) : Follows m m := fun _ => .inl rfl

theorem giveUp (m : Run α) : Follows (throw .nestingLimit) m := fun s => .inr ⟨s, rfl⟩

theorem bind {m m' : Run α} {k k' : α → Run β} (first : Follows m m')
    (rest : ∀ a, Follows (k a) (k' a)) : Follows (m >>= k) (m' >>= k') := by
  intro s
  simp only [Bind.bind, EStateM.bind]
  rcases first s with same | ⟨s', gaveUp⟩
  · rw [same]
    cases m' s with
    | ok a s' => exact rest a s'
    | error t s' => exact .inl rfl
  · exact .inr ⟨s', by rw [gaveUp]⟩

theorem nested {m m' : Run Value} (h : Follows m m') : Follows (nested m) (nested m') := by
  intro s
  unfold Machine.nested
  rcases h { s with depth := s.depth + 1 } with same | ⟨s', gaveUp⟩
  · exact .inl (by rw [same])
  · exact .inr ⟨_, by rw [gaveUp]⟩

variable {f g : Invoke}

theorem execInst (types : TypeTable) (calls :
    ∀ callee args, Follows (f callee args) (g callee args))
    (r : Registers) (inst : Inst) : Follows (execInst types f r inst)
    (execInst types g r inst) := by
  cases inst with
  | call dst func args => exact bind (calls _ _) fun _ => refl _
  | callIndirect dst sig callee args =>
    exact bind (refl _) fun _ => bind (calls _ _) fun _ => refl _
  | _ => exact refl _

theorem execInsts (types : TypeTable)
    (calls : ∀ callee args, Follows (f callee args) (g callee args)) (r : Registers)
    (insts : List Inst) : Follows (execInsts types f r insts) (execInsts types g r insts) := by
  induction insts generalizing r with
  | nil => exact refl _
  | cons inst rest ih => exact bind (refl _) fun _ => bind (execInst types calls r inst) ih

/-- If the first block leaves, the walk ends with it. -/
theorem execBody (types : TypeTable) (calls :
    ∀ callee args, Follows (f callee args) (g callee args))
    (body : Body) (args : List Value) :
    Follows (execFirst types f body args) (execBody types g body args) := by
  intro s
  unfold execFirst Machine.execBody
  generalize (args.take body.values.size ++
    List.replicate (body.values.size - args.length) Value.undef).toArray = r
  rw [walk]
  cases body.blocks[0]? with
  | none => exact .inr ⟨s, rfl⟩
  | some block =>
    dsimp only
    rcases execInsts types calls r block.insts.toList s with same | ⟨s', gaveUp⟩
    · rw [same]
      by_cases empty : block.insts.isEmpty
      · -- without instructions the walk looks at the exit at once
        rw [if_pos empty, Array.isEmpty_iff.mp empty]
        dsimp only [Machine.execInsts, Pure.pure, EStateM.pure]
        split
        · rename_i leaves
          exact .inl (by rw [leaves])
        · exact .inr ⟨s, rfl⟩
      · rw [if_neg empty]
        cases Machine.execInsts types g r block.insts.toList s with
        | error t s' => exact .inl rfl
        | ok r' s' =>
          dsimp only
          split
          · rename_i leaves
            exact .inl (by rw [leaves])
          · exact .inr ⟨s', rfl⟩
    · exact .inr ⟨s', by rw [gaveUp]⟩

theorem invoke (im : Image) (levels : Nat) (callee : Callee) (args : List Value) :
    Follows (invokeStraight im levels callee args) (invoke im levels callee args) := by
  induction levels generalizing callee args with
  | zero => exact giveUp _
  | succ levels ih =>
    cases callee with
    | host id => exact giveUp _
    | function id =>
      simp only [invokeStraight, Machine.invoke]
      cases im.code.function? id with
      | none => exact giveUp _
      | some f =>
        dsimp only
        split
        · exact refl _
        · cases f.body with
          | none => exact giveUp _
          | some body =>
            refine bind (refl _) fun s => ?_
            split
            · exact refl _
            · exact nested (execBody im.code.types ih body args)

end Run.Follows

/-- The trap that a run ended with, if it ended with one. -/
def trap? {α : Type} : EStateM.Result Trap State α → Option Trap
  | .ok _ _ => none
  | .error t _ => some t

theorem of_trap?_none {α : Type} {result : EStateM.Result Trap State α} (h : trap? result = none) :
    ∃ v s, result = .ok v s := by
  cases result with
  | ok v s => exact ⟨v, s, rfl⟩
  | error t s => cases h

theorem of_trap?_some {α : Type} {t : Trap} {result : EStateM.Result Trap State α}
    (h : trap? result = some t) : ∃ s, result = .error t s := by
  cases result with
  | ok v s => cases h
  | error t' s =>
    obtain rfl := Option.some.inj h
    exact ⟨s, rfl⟩

/-- What is come to without giving up is what the call comes to. -/
theorem invoke_of_straight {im : Image} {levels : Nat} {callee : Callee} {args : List Value}
    {s : State} {result : EStateM.Result Trap State Value}
    (ran : invokeStraight im levels callee args s = result)
    (finished : ∀ s', result ≠ .error .nestingLimit s') :
    invoke im levels callee args s = result := by
  rcases Run.Follows.invoke im levels callee args s with same | ⟨s', gaveUp⟩
  · exact same.symm.trans ran
  · exact absurd (ran.symm.trans gaveUp) (finished s')

/-- What a call is seen to come to, if it does not give up. -/
theorem callFunction_of_straight {m : Machine} {f : FuncId} {args : List Value}
    {result : EStateM.Result Trap State Value}
    (ran : invokeStraight m.image maxNesting (.function f) args m.state = result)
    (finished : ∀ s', result ≠ .error .nestingLimit s') :
    m.callFunction f args = m.step fun _ => result := by
  unfold callFunction step
  rw [invoke_of_straight ran finished]

/-- What a call of a function is seen to answer, with the machine after it. -/
def answer? (m : Machine) (f : FuncId) (args : List Value) : Option (Value × Machine) :=
  match invokeStraight m.image maxNesting (.function f) args m.state with
  | .ok v state => some (v, { m with state })
  | .error _ _ => none

theorem callFunction_of_answer? {m m' : Machine} {f : FuncId} {args : List Value} {v : Value}
    (answers : m.answer? f args = some (v, m')) : m.callFunction f args = (.ok v, m') := by
  unfold answer? at answers
  split at answers
  · rename_i v' state ran
    obtain ⟨rfl, rfl⟩ := Prod.mk.inj (Option.some.inj answers)
    exact callFunction_of_straight ran (by simp)
  · cases answers

end ShapeCompiler.Machine
