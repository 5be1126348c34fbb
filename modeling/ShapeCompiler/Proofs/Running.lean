import ShapeCompiler.Proofs.Sketches

/-!
# Running a well-formed body

A body that is well formed

* stays within its blocks: it never gets to the end of a block without an exit, nor to a block that
  is not there;
* reads nothing but its parameters and what it computed: registers that differ elsewhere make no
  difference.

`Body.Runs` says both, and `WellFormed.runs` proves it.
-/

namespace ShapeCompiler

open Code Machine

namespace Machine

/-! ## Staying within the blocks -/

/-- Control got to the end of a block without an exit, or to a block that is not there. -/
def Trap.isStray : Trap → Bool
  | .unterminated _ | .missingBlock _ => true
  | _ => false

/-- If it fails, control is still within the blocks. -/
def Within {α : Type} (x : Except Trap α) : Prop := ∀ t, x = .error t → t.isStray = false

namespace Within

variable {α β : Type}

theorem ok (a : α) : Within (.ok a) := by
  rintro t ⟨⟩

theorem error {t : Trap} (h : t.isStray = false) : Within (.error t : Except Trap α) := by
  rintro _ ⟨⟩
  exact h

theorem bind {x : Except Trap α} {k : α → Except Trap β} (first : Within x)
    (rest : ∀ a, Within (k a)) : Within (x >>= k) := by
  intro t failed
  cases x with
  | ok a => exact rest a t failed
  | error t' =>
    cases failed
    exact first _ rfl

theorem map {x : Except Trap α} (h : Within x) (f : α → β) : Within (x.map f) := by
  intro t failed
  cases x with
  | ok a => cases failed
  | error t' =>
    cases failed
    exact h _ rfl

theorem asPointer (v : Value) : Within v.asPointer := by
  cases v <;> rintro t ⟨⟩ <;> rfl

theorem asBool (v : Value) : Within v.asBool := by
  cases v <;> rintro t ⟨⟩ <;> rfl

theorem asInt (v : Value) : Within v.asInt := by
  cases v <;> rintro t ⟨⟩ <;> rfl

theorem asFloat (v : Value) : Within v.asFloat := by
  cases v <;> rintro t ⟨⟩ <;> rfl

theorem asText (v : Value) : Within v.asText := by
  cases v <;> rintro t ⟨⟩ <;> rfl

theorem callee (v : Value) : Within v.callee := by
  cases v <;> rintro t ⟨⟩ <;> rfl

theorem elementIndex (i : Int64) : Within (elementIndex i) := by
  unfold Machine.elementIndex
  dsimp only
  split
  · exact .ok _
  · exact .error rfl

theorem binaryValue (op : BinaryOp) (lhs rhs : Value) : Within (binaryValue op lhs rhs) := by
  have floats (f : Float → Float → Float) : Within (do
      return Value.float (f (← lhs.asFloat) (← rhs.asFloat))) :=
    (asFloat lhs).bind fun _ => (asFloat rhs).bind fun _ => .ok _
  have ints (f : Int64 → Int64 → Int64) : Within (do
      return Value.int (f (← lhs.asInt) (← rhs.asInt))) :=
    (asInt lhs).bind fun _ => (asInt rhs).bind fun _ => .ok _
  cases op with
  | fadd => exact floats (· + ·)
  | fsub => exact floats (· - ·)
  | fmul => exact floats (· * ·)
  | fdiv => exact floats (· / ·)
  | add => exact ints (· + ·)
  | sub => exact ints (· - ·)
  | mul => exact ints (· * ·)
  | concat => exact (asText lhs).bind fun _ => (asText rhs).bind fun _ => .ok _
  | and =>
    simp only [Machine.binaryValue]
    split
    · exact .ok _
    · exact ints (· &&& ·)
  | or =>
    simp only [Machine.binaryValue]
    split
    · exact .ok _
    · exact ints (· ||| ·)

theorem compareValues (pred : Predicate) (lhs rhs : Value) :
    Within (compareValues pred lhs rhs) := by
  unfold Machine.compareValues
  split
  · exact .ok _
  · exact .ok _
  · exact .ok _
  · exact .ok _
  · split
    · cases pred with
      | eq => exact .ok _
      | ne => exact .ok _
      | _ => exact .error rfl
    · exact .error rfl

theorem follow (p : Pointer) (path : List Nat) (v : Value) : Within (v.follow p path) := by
  fun_induction Value.follow p path v with
  | case1 => exact .ok _
  | case2 _ _ _ _ _ ih => exact ih
  | _ => exact .error rfl

theorem replace (p : Pointer) (new : Value) (path : List Nat) (v : Value) :
    Within (Value.replace p new path v) := by
  fun_induction Value.replace p new path v with
  | case1 => exact .ok _
  | case2 _ _ _ _ _ ih => exact ih.map _
  | _ => exact .error rfl

theorem root (m : Memory) (region : Region) : Within (m.root region) := by
  unfold Memory.root
  split <;> split
  · exact .ok _
  · exact .error rfl
  · exact .ok _
  · exact .error rfl

theorem guardWrite (m : Memory) (region : Region) : Within (m.guardWrite region) := by
  unfold Memory.guardWrite
  split
  · exact .ok _
  · split
    · split
      · exact .error rfl
      · exact .ok _
    · exact .ok _

theorem load (m : Memory) (ptr : Value) : Within (m.load ptr) := by
  apply (asPointer ptr).bind
  intro p
  have read : Within (m.read p) := (root m p.region).bind fun v => follow p p.path v
  apply read.bind
  intro v
  split
  · exact .error rfl
  · exact .ok _

theorem written (m : Memory) (p : Pointer) (v : Value) : Within (m.written p v) :=
  (guardWrite m p.region).bind fun _ => (root m p.region).bind fun whole => replace p v p.path whole

theorem exitBlock (r : Registers) {block : Block} (leaves : block.exit.isSome) :
    Within (exitBlock r block) := by
  unfold Machine.exitBlock
  split
  · rename_i none
    simp [none] at leaves
  · exact .ok _
  · exact .ok _
  · exact (asBool _).bind fun _ => .ok _
  · exact (asInt _).bind fun _ => .ok _
  · exact .error rfl

end Within

/-- If the step fails, control is still within the blocks. -/
def Run.Within {α : Type} (m : Run α) : Prop := ∀ s t s', m s = .error t s' → t.isStray = false

namespace Run.Within

variable {α β : Type}

theorem pure (a : α) : Run.Within (Pure.pure a) := by
  rintro s t s' ⟨⟩

theorem bind {m : Run α} {k : α → Run β} (first : Run.Within m) (rest : ∀ a, Run.Within (k a)) :
    Run.Within (m >>= k) := by
  intro s t s' failed
  change EStateM.bind m k s = _ at failed
  unfold EStateM.bind at failed
  cases ran : m s with
  | ok a s₁ =>
    rw [ran] at failed
    exact rest a s₁ t s' failed
  | error t₁ s₁ =>
    rw [ran] at failed
    cases failed
    exact first s _ _ ran

theorem ofExcept {x : Except Trap α} (h : Machine.Within x) : Run.Within (Run.ofExcept x) := by
  cases x with
  | ok a => exact pure a
  | error t' =>
    rintro s t s' ⟨⟩
    exact h _ rfl

theorem loadValue (ptr : Value) : Run.Within (loadValue ptr) := by
  intro s t s' failed
  exact ofExcept (.load s.memory ptr) s t s' failed

theorem storeValue (ptr v : Value) : Run.Within (storeValue ptr v) := by
  apply (ofExcept (.asPointer ptr)).bind
  intro p s t s' failed
  exact ((ofExcept (.written s.memory p v)).bind fun _ => by rintro s t s' ⟨⟩) s t s' failed

theorem execInst (types : TypeTable) {invoke : Invoke}
    (calls : ∀ f args, Run.Within (invoke f args))
    (r : Registers) (inst : Inst) : Run.Within (execInst types invoke r inst) := by
  cases inst with
  | const dst value => exact pure _
  | alloc dst ty => rintro s t s' ⟨⟩
  | load dst ty ptr => exact (loadValue _).bind fun _ => pure _
  | store value ptr => exact (storeValue _ _).bind fun _ => pure _
  | fieldAddr dst ty ptr index => exact (ofExcept (.asPointer _)).bind fun _ => pure _
  | elemAddr dst elem ptr index =>
    exact (ofExcept (.asInt _)).bind fun _ => (ofExcept (.elementIndex _)).bind fun _ =>
      (ofExcept (.asPointer _)).bind fun _ => pure _
  | call dst func args => exact (calls _ _).bind fun _ => pure _
  | callIndirect dst sig callee args =>
    exact (ofExcept (.callee _)).bind fun _ => (calls _ _).bind fun _ => pure _
  | bitcast dst value ty => exact pure _
  | binary dst op lhs rhs => exact (ofExcept (.binaryValue _ _ _)).bind fun _ => pure _
  | compare dst pred lhs rhs => exact (ofExcept (.compareValues _ _ _)).bind fun _ => pure _
  | not dst value => exact (ofExcept (.asBool _)).bind fun _ => pure _
  | fneg dst value => exact (ofExcept (.asFloat _)).bind fun _ => pure _

theorem useFuel : Run.Within useFuel := by
  intro s t s' failed
  obtain ⟨memory, fuel, depth, log⟩ := s
  cases fuel with
  | zero =>
    cases failed
    rfl
  | succ fuel =>
    rw [useFuel_eq rfl] at failed
    cases failed

theorem execInsts (types : TypeTable) {invoke : Invoke}
    (calls : ∀ f args, Run.Within (invoke f args))
    (r : Registers) (insts : List Inst) : Run.Within (execInsts types invoke r insts) := by
  induction insts generalizing r with
  | nil => exact pure r
  | cons inst rest ih =>
    exact useFuel.bind fun _ => (execInst types calls r inst).bind fun r' => ih r'

end Run.Within

/-! ## Reading what was computed -/

/-- The registers hold the same, as far as they are known. -/
structure Agree (known : ValueId → Prop) (r r' : Registers) : Prop where
  size : r.size = r'.size
  same : ∀ v, known v → r.read v = r'.read v

variable {known : ValueId → Prop} {r r' : Registers}

theorem Agree.mono {fewer : ValueId → Prop} (h : Agree known r r') (less : ∀ v, fewer v → known v) :
    Agree fewer r r' := ⟨h.size, fun v isKnown => h.same v (less v isKnown)⟩

theorem read_write_of_ne {v dst : ValueId} (x : Value) (apart : v ≠ dst) :
    (r.write dst x).read v = r.read v := by
  have : dst.raw ≠ v.raw := fun same => apart (by cases v; cases dst; simpa using same.symm)
  simp [Registers.read, Registers.write, Array.getD_eq_getD_getElem?, this]

theorem read_write_self (dst : ValueId) (x : Value) :
    (r.write dst x).read dst = if dst.raw < r.size then x else .undef := by
  simp only [Registers.read, Registers.write, Array.getD_eq_getD_getElem?,
    Array.getElem?_setIfInBounds_self]
  split <;> simp_all

theorem Agree.write (h : Agree known r r') (dst : ValueId) (x : Value) :
    Agree (fun v => known v ∨ dst = v) (r.write dst x) (r'.write dst x) := by
  refine ⟨by simp [h.size], ?_⟩
  intro v isKnown
  by_cases isDst : v = dst
  · subst isDst
    rw [read_write_self, read_write_self, h.size]
  · rw [read_write_of_ne x isDst, read_write_of_ne x isDst]
    rcases isKnown with isKnown | rfl
    · exact h.same v isKnown
    · exact absurd rfl isDst

/-- What an instruction computes from what it reads. -/
def instValue (types : TypeTable) (invoke : Invoke) (read : ValueId → Value) : Inst → Run Value
  | .const _ value => return constValue value
  | .alloc _ ty => allocate (zeroValue types ty)
  | .load _ _ ptr => loadValue (read ptr)
  | .store value ptr => do
    storeValue (read ptr) (read value)
    return .undef
  | .fieldAddr _ _ ptr index => do
    let p ← Run.ofExcept (read ptr).asPointer
    return .ptr (p.child index)
  | .elemAddr _ _ ptr index => do
    let i ← Run.ofExcept (read index).asInt
    let i ← Run.ofExcept (elementIndex i)
    let p ← Run.ofExcept (read ptr).asPointer
    return .ptr (p.child i)
  | .call _ func args => invoke (.function func) (args.map read)
  | .callIndirect _ _ callee args => do
    let target ← Run.ofExcept (read callee).callee
    invoke target (args.map read)
  | .bitcast _ value _ => return read value
  | .binary _ op lhs rhs => Run.ofExcept (binaryValue op (read lhs) (read rhs))
  | .compare _ pred lhs rhs => do
    return .bool (← Run.ofExcept (compareValues pred (read lhs) (read rhs)))
  | .not _ value => do return .bool (!(← Run.ofExcept (read value).asBool))
  | .fneg _ value => do return .float (-(← Run.ofExcept (read value).asFloat))

theorem execInst_eq (types : TypeTable) (invoke : Invoke) (r : Registers) (inst : Inst) :
    execInst types invoke r inst = do
      let x ← instValue types invoke r.read inst
      return inst.defined?.elim r (r.write · x) := by
  cases inst <;> simp [execInst, instValue, Inst.defined?]

/-- The instruction reads its operands only. -/
theorem instValue_congr (types : TypeTable) (invoke : Invoke) {read read' : ValueId → Value}
    {inst : Inst} (same : ∀ v ∈ inst.operands, read v = read' v) :
    instValue types invoke read inst = instValue types invoke read' inst := by
  cases inst with
  | call dst func args =>
    have args' : args.map read = args.map read' := List.map_congr_left same
    simp only [instValue, args']
  | callIndirect dst sig callee args =>
    have args' : args.map read = args.map read' :=
      List.map_congr_left fun v inside => same v (List.mem_cons_of_mem _ inside)
    simp only [instValue, same callee List.mem_cons_self, args']
  | _ => simp_all [instValue, Inst.operands]

/-- The first instruction, and the others from where it leaves off. -/
theorem execInsts_cons (types : TypeTable) (invoke : Invoke) (r : Registers) (inst : Inst)
    (rest : List Inst) (s : State) :
    execInsts types invoke r (inst :: rest) s =
      match useFuel s with
      | .error t s' => .error t s'
      | .ok _ s₁ =>
        match instValue types invoke r.read inst s₁ with
        | .error t s' => .error t s'
        | .ok x s₂ => execInsts types invoke (inst.defined?.elim r (r.write · x)) rest s₂ := by
  simp only [execInsts, execInst_eq, Bind.bind, EStateM.bind]
  cases useFuel s with
  | error t s' => rfl
  | ok a s₁ =>
    dsimp only
    cases instValue types invoke r.read inst s₁ with
    | error t s' => rfl
    | ok x s₂ => rfl

/-- The instructions end alike, and what they define agrees. -/
theorem execInsts_agree (types : TypeTable) (invoke : Invoke) (insts : List Inst) (s : State)
    (h : Agree known r r')
    (uses : ∀ (i : Nat) (inst : Inst), insts[i]? = some inst → ∀ v ∈ inst.operands, known v ∨
      ∃ j < i, ∃ inst' : Inst, insts[j]? = some inst' ∧ inst'.defined? = some v) :
    match execInsts types invoke r insts s with
    | .error t s' => execInsts types invoke r' insts s = .error t s'
    | .ok r₁ s' => ∃ r₁', execInsts types invoke r' insts s = .ok r₁' s' ∧
        Agree (fun v => known v ∨ ∃ inst ∈ insts, inst.defined? = some v) r₁ r₁' := by
  induction insts generalizing known r r' s with
  | nil => exact ⟨r', rfl, h.mono (by simp)⟩
  | cons inst rest ih =>
    have reads : ∀ v ∈ inst.operands, r.read v = r'.read v := by
      intro v used
      rcases uses 0 inst rfl v used with isKnown | ⟨j, never, _⟩
      · exact h.same v isKnown
      · exact absurd never (Nat.not_lt_zero j)
    rw [execInsts_cons, execInsts_cons, instValue_congr types invoke reads]
    cases useFuel s with
    | error t s' => rfl
    | ok a s₁ =>
      dsimp only
      cases instValue types invoke r'.read inst s₁ with
      | error t s' => rfl
      | ok x s₂ =>
        have agree : Agree (fun v => known v ∨ inst.defined? = some v)
            (inst.defined?.elim r (r.write · x)) (inst.defined?.elim r' (r'.write · x)) := by
          cases inst.defined? with
          | none => exact h.mono (by simp)
          | some dst => exact (h.write dst x).mono (by simp)
        have uses' : ∀ (i : Nat) (inst' : Inst), rest[i]? = some inst' → ∀ v ∈ inst'.operands,
            (known v ∨ inst.defined? = some v) ∨
              ∃ j < i, ∃ inst'' : Inst, rest[j]? = some inst'' ∧ inst''.defined? = some v := by
          intro i inst' there v used
          rcases uses (i + 1) inst' there v used with isKnown | ⟨j, before, inst'', at_, defines⟩
          · exact .inl (.inl isKnown)
          · cases j with
            | zero =>
              cases at_
              exact .inl (.inr defines)
            | succ j => exact .inr ⟨j, Nat.lt_of_succ_lt_succ before, inst'', at_, defines⟩
        have rest' := ih s₂ agree uses'
        dsimp only
        split
        · rename_i t s' failed
          rw [failed] at rest'
          exact rest'
        · rename_i r₁ s' ran
          rw [ran] at rest'
          obtain ⟨r₁', ran', agree'⟩ := rest'
          refine ⟨r₁', ran', agree'.mono ?_⟩
          rintro v (isKnown | ⟨inst', inside, defines⟩)
          · exact .inl (.inl isKnown)
          · rcases List.mem_cons.mp inside with rfl | later
            · exact .inl (.inr defines)
            · exact .inr ⟨inst', later, defines⟩

/-- Control goes on alike. -/
theorem exitBlock_agree (h : Agree known r r') {block : Block}
    (uses : ∀ e, block.exit = some e → ∀ v ∈ e.operands, known v) :
    exitBlock r block = exitBlock r' block := by
  unfold exitBlock
  cases leaves : block.exit with
  | none => rfl
  | some e =>
    have same := fun v used => h.same v (uses e leaves v used)
    cases e with
    | ret value =>
      cases value with
      | none => rfl
      | some v => simp [same v (by simp [Exit.operands])]
    | br target => rfl
    | condBr cond thenBlock elseBlock => simp [same cond (by simp [Exit.operands])]
    | switch value default cases => simp [same value (by simp [Exit.operands])]
    | unreachable => rfl

/-- Control goes to a target of the exit. -/
theorem exitBlock_goto {block : Block} {next : BlockId}
    (leads : exitBlock r block = .ok (.goto next)) :
    ∃ e, block.exit = some e ∧ next ∈ e.targets := by
  unfold exitBlock at leads
  cases leaves : block.exit with
  | none => simp [leaves] at leads
  | some e =>
    refine ⟨e, rfl, ?_⟩
    rw [leaves] at leads
    cases e with
    | ret value => cases leads
    | br target =>
      cases leads
      simp [Exit.targets]
    | condBr cond thenBlock elseBlock =>
      obtain ⟨isTrue, _, leads⟩ := exists_of_bind_ok leads
      cases leads
      cases isTrue <;> simp [Exit.targets]
    | switch value default cases =>
      obtain ⟨v, _, leads⟩ := exists_of_bind_ok leads
      cases leads
      cases found : cases.find? (·.1 = v) with
      | none => exact List.mem_cons_self
      | some case =>
        exact List.mem_cons_of_mem _ (List.mem_map.mpr ⟨case, List.mem_of_find?_eq_some found, rfl⟩)
    | unreachable => cases leads

end Machine

/-! ## Bodies -/

namespace Code.Body

variable {body : Body} {params : Nat} {types : TypeTable} {invoke : Invoke}

/-- The body stays within its blocks, and reads its parameters and what it computed. -/
structure Runs (params : Nat) (body : Body) : Prop where
  within : ∀ (types : TypeTable) (invoke : Invoke) (args : List Value),
    (∀ f args, Run.Within (invoke f args)) → Run.Within (execBody types invoke body args)
  computed : ∀ (types : TypeTable) (invoke : Invoke) (idle budget : Nat) (r r' : Registers)
    (s : State), Agree (fun v => v.raw < params) r r' →
    walk types invoke body ⟨0⟩ idle r budget s = walk types invoke body ⟨0⟩ idle r' budget s

/-- The registers agree on what is computed once so many instructions of a block ran. -/
abbrev AgreeAt (body : Body) (params : Nat) (before : List BlockId) (id : BlockId) (n : Nat)
    (r r' : Registers) : Prop := Agree (body.Computed params before id n) r r'

/-- Once its instructions ran, a block has computed what they define. -/
theorem Computed.block {before : List BlockId} {b : BlockId} {k : Block} {v : ValueId}
    (here : body.blocks[b.raw]? = some k) (h : body.Computed params before b k.insts.size v) :
    body.Computed params before b 0 v ∨ ∃ inst ∈ k.insts.toList, inst.defined? = some v := by
  rcases h with isParam | earlier | ⟨i, _, k', inst, there, at_, defines⟩
  · exact .inl (.inl isParam)
  · exact .inl (.inr (.inl earlier))
  · obtain rfl : k = k' := Option.some.inj (here.symm.trans there)
    exact .inr ⟨inst, Array.mem_toList_iff.mpr (Array.mem_of_getElem? at_), defines⟩

/-- At the next block nothing is computed that was not computed when this one was left. -/
theorem Computed.next {before : List BlockId} {a b : BlockId} {k : Block} {v : ValueId}
    (here : body.blocks[a.raw]? = some k) (h : body.Computed params (before ++ [a]) b 0 v) :
    body.Computed params before a k.insts.size v := by
  rcases h with isParam | ⟨c, inside, i, defines⟩ | ⟨i, never, _⟩
  · exact .inl isParam
  · rcases List.mem_append.mp inside with earlier | last
    · exact .inr (.inl ⟨c, earlier, i, defines⟩)
    · cases List.mem_singleton.mp last
      exact .inr (.inr ⟨i, defines.lt here, defines⟩)
  · exact absurd never (Nat.not_lt_zero i)

namespace WellFormed

/-- A way leads to a block. -/
theorem reached (h : body.WellFormed params) {before : List BlockId} {id : BlockId}
    (way : body.Way before id) : id.raw < body.blocks.size := by
  cases way with
  | entry => exact h.entered
  | @step before a b k e way here leaves leads =>
    obtain ⟨e', leaves', inside⟩ := h.left a.raw k here
    obtain rfl : e = e' := Option.some.inj (leaves.symm.trans leaves')
    exact inside id leads

theorem exits_within (h : body.WellFormed params) {id : BlockId} {k : Block}
    (here : body.blocks[id.raw]? = some k) (r : Registers) : Machine.Within (exitBlock r k) := by
  obtain ⟨e, leaves, _⟩ := h.left id.raw k here
  exact .exitBlock r (by simp [leaves])

theorem walk_within (h : body.WellFormed params) (calls : ∀ f args, Run.Within (invoke f args))
    {before : List BlockId} {id : BlockId} (way : body.Way before id) (idle : Nat) (r : Registers)
    (budget : Nat) (s : State) {t : Trap} {s' : State}
    (failed : walk types invoke body id idle r budget s = .error t s') : t.isStray = false := by
  fun_induction walk types invoke body id idle r budget s generalizing before with
  | case1 id idle r budget s missing =>
    exact absurd (h.reached way) (by simpa using missing)
  | case2 id idle r budget s k here empty t' leads =>
    cases failed
    exact h.exits_within here r t leads
  | case3 => cases failed
  | case4 =>
    cases failed
    rfl
  | case5 r budget s id k here empty next leads idle ih =>
    obtain ⟨e, leaves, target⟩ := exitBlock_goto leads
    exact ih (way.step here leaves target) failed
  | case6 id idle r budget s k here filled t' s₁ ran =>
    cases failed
    exact Run.Within.execInsts types calls r k.insts.toList s t s' ran
  | case7 id idle r budget s k here filled r₁ s₁ ran t' leads =>
    cases failed
    exact h.exits_within here r₁ t leads
  | case8 => cases failed
  | case9 id idle r budget s k here filled r₁ s₁ ran next leads spent ih =>
    obtain ⟨e, leaves, target⟩ := exitBlock_goto leads
    exact ih (way.step here leaves target) failed
  | case10 =>
    cases failed
    rfl

/-- The instructions of a block end alike. -/
theorem insts_agree (h : body.WellFormed params) (types : TypeTable) (invoke : Invoke)
    {before : List BlockId} {id : BlockId} {k : Block}
    (way : body.Way before id) (here : body.blocks[id.raw]? = some k) {r r' : Registers}
    (agree : AgreeAt body params before id 0 r r') (s : State) :
    match execInsts types invoke r k.insts.toList s with
    | .error t s' => execInsts types invoke r' k.insts.toList s = .error t s'
    | .ok r₁ s' => ∃ r₁', execInsts types invoke r' k.insts.toList s = .ok r₁' s' ∧
        AgreeAt body params before id k.insts.size r₁ r₁' := by
  have uses : ∀ (i : Nat) (inst : Inst), k.insts.toList[i]? = some inst → ∀ v ∈ inst.operands,
      body.Computed params before id 0 v ∨
        ∃ j < i, ∃ inst' : Inst, k.insts.toList[j]? = some inst' ∧ inst'.defined? = some v := by
    intro i inst at_ v used
    rw [Array.getElem?_toList] at at_
    rcases h.insts before id k i inst way here at_ v
      used with isParam | earlier | ⟨j, before, defines⟩
    · exact .inl (.inl isParam)
    · exact .inl (.inr (.inl earlier))
    · obtain ⟨k', inst', there, at', defines⟩ := defines
      obtain rfl : k = k' := Option.some.inj (here.symm.trans there)
      exact .inr ⟨j, before, inst', by rwa [Array.getElem?_toList], defines⟩
  have ends := execInsts_agree types invoke k.insts.toList s agree uses
  split <;> rename_i ran <;> rw [ran] at ends
  · exact ends
  · obtain ⟨r₁', ran', agree'⟩ := ends
    exact ⟨r₁', ran', agree'.mono fun v computed => computed.block here⟩

/-- Registers that agree on what is computed end alike. -/
theorem walk_agree (h : body.WellFormed params) {before : List BlockId} {id : BlockId}
    (way : body.Way before id) (idle : Nat) {r r' : Registers} (budget : Nat) (s : State)
    (agree : AgreeAt body params before id 0 r r') :
    walk types invoke body id idle r budget s = walk types invoke body id idle r' budget s := by
  have leaves {before : List BlockId} {id : BlockId} {k : Block} (way : body.Way before id)
      (here : body.blocks[id.raw]? = some k) {r r' : Registers}
      (agree : AgreeAt body params before id k.insts.size r r') : exitBlock r k = exitBlock r' k :=
    exitBlock_agree agree fun e isExit => h.exits before id k e way here isExit
  have goes {before : List BlockId} {id next : BlockId} {k : Block}
      (here : body.blocks[id.raw]? = some k) {r r' : Registers}
      (agree : AgreeAt body params before id k.insts.size r r') :
      AgreeAt body params (before ++ [id]) next 0 r r' :=
    agree.mono fun v computed => computed.next here
  have idles {before : List BlockId} {id : BlockId} {k : Block} (empty : k.insts.isEmpty = true)
      {r r' : Registers} (agree : AgreeAt body params before id 0 r r') :
      AgreeAt body params before id k.insts.size r r' := by
    have none : k.insts.size = 0 := by simpa using empty
    rwa [none]
  have runs {before : List BlockId} {id : BlockId} {k : Block} (way : body.Way before id)
      (here : body.blocks[id.raw]? = some k) {r r' r₁ : Registers} {s s₁ : State}
      (agree : AgreeAt body params before id 0 r r')
      (ran : execInsts types invoke r k.insts.toList s = .ok r₁ s₁) :
      ∃ r₁', execInsts types invoke r' k.insts.toList s = .ok r₁' s₁ ∧
        AgreeAt body params before id k.insts.size r₁ r₁' := by
    have ends := h.insts_agree types invoke way here agree s
    rwa [ran] at ends
  fun_induction walk types invoke body id idle r budget s generalizing before r' with
  | case1 id idle r budget s missing =>
    exact absurd (h.reached way) (by simpa using missing)
  | case2 id idle r budget s k here empty t leads =>
    rw [leaves way here (idles empty agree)] at leads
    rw [walk]
    simp only [here, empty, if_true, leads]
  | case3 id idle r budget s k here empty v leads =>
    rw [leaves way here (idles empty agree)] at leads
    rw [walk]
    simp only [here, empty, if_true, leads]
  | case4 r budget s id k here empty next leads =>
    rw [leaves way here (idles empty agree)] at leads
    rw [walk]
    simp only [here, empty, if_true, leads]
  | case5 r budget s id k here empty next leads idle ih =>
    obtain ⟨e, isExit, target⟩ := exitBlock_goto leads
    rw [ih (way.step here isExit target) (goes here (idles empty agree))]
    rw [leaves way here (idles empty agree)] at leads
    conv_rhs => rw [walk]
    simp only [here, empty, if_true, leads]
  | case6 id idle r budget s k here filled t s₁ ran =>
    have ran' := h.insts_agree types invoke way here agree s
    simp only [ran] at ran'
    rw [walk]
    simp only [here, filled, Bool.false_eq_true, if_false, ran']
  | case7 id idle r budget s k here filled r₁ s₁ ran t leads =>
    obtain ⟨r₁', ran', agree'⟩ := runs way here agree ran
    rw [leaves way here agree'] at leads
    rw [walk]
    simp only [here, filled, Bool.false_eq_true, if_false, ran', leads]
  | case8 id idle r budget s k here filled r₁ s₁ ran v leads =>
    obtain ⟨r₁', ran', agree'⟩ := runs way here agree ran
    rw [leaves way here agree'] at leads
    rw [walk]
    simp only [here, filled, Bool.false_eq_true, if_false, ran', leads]
  | case9 id idle r budget s k here filled r₁ s₁ ran next leads spent ih =>
    obtain ⟨r₁', ran', agree'⟩ := runs way here agree ran
    obtain ⟨e, isExit, target⟩ := exitBlock_goto leads
    rw [ih (way.step here isExit target) (goes here agree')]
    rw [leaves way here agree'] at leads
    conv_rhs => rw [walk]
    simp only [here, filled, Bool.false_eq_true, if_false, ran', leads, spent, if_true]
  | case10 id idle r budget s k here filled r₁ s₁ ran next leads spent =>
    obtain ⟨r₁', ran', agree'⟩ := runs way here agree ran
    rw [leaves way here agree'] at leads
    rw [walk]
    simp only [here, filled, Bool.false_eq_true, if_false, ran', leads, spent]

/-- A well-formed body stays within its blocks, and reads its parameters and what it computed. -/
theorem runs (h : body.WellFormed params) : body.Runs params where
  within _ _ _ calls s _ _ failed := h.walk_within calls .entry _ _ _ s failed
  computed _ _ idle budget _ _ s agree := by
    apply h.walk_agree .entry idle budget s
    apply agree.mono
    rintro v (isParam | ⟨a, never, _⟩ | ⟨i, never, _⟩)
    · exact isParam
    · cases never
    · exact absurd never (Nat.not_lt_zero i)

end WellFormed

end Code.Body

/-! ## Calls -/

namespace Machine

/-- A host that fails is not out of the blocks itself. It may hand on how a call ended. -/
def Request.Within : Request → Prop
  | .done result => Machine.Within result
  | .look next => ∀ s, (next s).Within
  | .log _ next => next.Within
  | .alloc _ next => ∀ v, (next v).Within
  | .write _ _ next => ∀ ended, Machine.Within ended → (next ended).Within
  | .run _ _ next => ∀ ended, Machine.Within ended → (next ended).Within
  | .callFunction _ _ next => ∀ ended, Machine.Within ended → (next ended).Within
  | .callValue _ _ next => ∀ ended, Machine.Within ended → (next ended).Within

namespace Run.Within

variable {α β : Type}

/-- What comes after a step that was tried depends on how it ended. -/
theorem attempt_bind {m : Run α} {k : Except Trap α → Run β} (tried : Run.Within m)
    (rest : ∀ ended, Machine.Within ended → Run.Within (k ended)) :
    Run.Within (attempt m >>= k) := by
  intro s t s' failed
  change EStateM.bind (attempt m) k s = _ at failed
  unfold EStateM.bind attempt at failed
  cases ran : m s with
  | ok a s₁ =>
    rw [ran] at failed
    exact rest _ (.ok a) s₁ t s' failed
  | error t₁ s₁ =>
    rw [ran] at failed
    exact rest _ (.error (tried s t₁ s₁ ran)) s₁ t s' failed

theorem get_bind {k : State → Run α} (rest : ∀ s, Run.Within (k s)) : Run.Within (get >>= k) :=
  fun s t s' failed => rest s s t s' failed

theorem nested {m : Run Value} (h : Run.Within m) : Run.Within (nested m) := by
  intro s t s' failed
  unfold Machine.nested at failed
  cases ran : m { s with depth := s.depth + 1 } with
  | ok v s₁ =>
    rw [ran] at failed
    cases failed
  | error t₁ s₁ =>
    rw [ran] at failed
    cases failed
    exact h _ _ _ ran

theorem throw {t : Trap} (h : t.isStray = false) : Run.Within (throw t : Run α) := by
  rintro s t' s' ⟨⟩
  exact h

/-- By induction on what the host asks for. -/
theorem perform {im : Image} {invoke : Invoke} (calls : ∀ f args, Run.Within (invoke f args))
    (request : Request) (h : request.Within) : Run.Within (request.perform im invoke) := by
  have named (name : String) : Machine.Within (im.functionNamed name) := by
    unfold Image.functionNamed
    split
    · exact .ok _
    · exact .error rfl
  induction request with
  | done result => exact ofExcept h
  | look next ih => exact get_bind fun s => ih s (h s)
  | log entry next ih =>
    intro s t s' failed
    exact ih h _ t s' failed
  | alloc value next ih =>
    intro s t s' failed
    exact ih _ (h _) _ t s' failed
  | write ptr value next ih =>
    exact attempt_bind (storeValue ptr value) fun ended within => ih ended (h ended within)
  | run function args next ih =>
    exact attempt_bind ((ofExcept (named function)).bind fun f => calls f args)
      fun ended within => ih ended (h ended within)
  | callFunction function args next ih =>
    exact attempt_bind (calls _ args) fun ended within => ih ended (h ended within)
  | callValue callee args next ih =>
    exact attempt_bind ((ofExcept (.callee callee)).bind fun f => calls f args)
      fun ended within => ih ended (h ended within)

/-- By induction on how deep calls nest. -/
theorem invoke {im : Image}
    (bodies : ∀ f fn body, im.code.function? f = some fn → fn.body = some body →
      ∃ params, body.WellFormed params)
    (hosts : ∀ host ∈ im.hosts, ∀ args, (host.act args).Within) (levels : Nat) (callee : Callee)
    (args : List Value) : Run.Within (invoke im levels callee args) := by
  induction levels generalizing callee args with
  | zero => exact throw rfl
  | succ levels ih =>
    cases callee with
    | host id =>
      simp only [Machine.invoke]
      split
      · exact throw rfl
      · rename_i host known
        exact perform ih _ (hosts host (Array.mem_of_getElem? known) args)
    | function id =>
      simp only [Machine.invoke]
      split
      · exact throw rfl
      · rename_i fn known
        split
        · exact throw rfl
        · split
          · split
            · exact throw rfl
            · exact ih _ _
          · rename_i body has
            obtain ⟨params, formed⟩ := bodies id fn body known has
            apply get_bind
            intro s
            have runs := (formed.runs.within im.code.types
              (Machine.invoke im levels) args ih).nested
            by_cases deep : maxDepth ≤ s.depth
            · simp only [deep, if_true]
              exact (throw rfl).bind fun _ => runs
            · simp only [deep, if_false]
              exact runs

end Run.Within

end Machine

end ShapeCompiler
