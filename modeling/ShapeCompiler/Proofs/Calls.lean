import ShapeCompiler.Compile.Dispatch
import ShapeCompiler.Proofs.Straight

/-!
# Functions that end in a call

A function whose body is written without branches and ends in a call hands over to what it calls:
`invoke_handsOver`.
-/

namespace ShapeCompiler

open Source Code Work Machine

namespace Machine

/-- The point at which a body begins, called with some arguments. -/
def startPoint (func : FuncId) (args : List Value) (mem : Memory) : Point where
  draft := Draft.start func (List.replicate args.length .ptr)
  values := fun v => args.getD v.raw .undef
  memory := mem
  place := ⟨0⟩
  isOpen := ⟨rfl, _, rfl, rfl⟩

theorem size_startPoint (func : FuncId) (args : List Value) (mem : Memory) :
    (startPoint func args mem).size = args.length := by
  simp [startPoint, Point.size, Draft.start]

theorem knows_param {func : FuncId} {args : List Value} {mem : Memory} {i : Nat} {v : Value}
    (arg : args[i]? = some v) : (startPoint func args mem).Knows (Draft.param i) v := by
  refine ⟨?_, by simp [startPoint, Draft.param, List.getD_eq_getElem?_getD, arg]⟩
  rw [size_startPoint]
  exact (List.getElem?_eq_some_iff.mp arg).1

/-- Ends a body with a call whose result it returns. -/
def endWith (inst : Option ValueId → Inst) : Writing Unit := do
  Draft.ret (← Draft.callBy .ptr "r" inst)

theorem modify_singleton (k : Block) (change : Block → Block) :
    #[k].modify 0 change = #[change k] := by
  apply Array.ext
  · simp
  · intro i inside _
    obtain rfl : i = 0 := by simpa using inside
    simp

/-- A body that was written without moving has one block. -/
theorem blocks_of_appends {func : FuncId} {args : List Value} {mem : Memory} {p : Point}
    {code : List Inst} (appends : (startPoint func args mem).draft.Appends ⟨0⟩ code p.draft) :
    p.draft.blocks = #[⟨"entry", code.toArray, none⟩] := by
  rw [appends.blocks]
  change #[(⟨"entry", #[], none⟩ : Block)].modify 0 _ = _
  rw [modify_singleton]
  simp

/-- The one block of a body that ends in a call. -/
theorem finish_endWith {func : FuncId} {args : List Value} {mem : Memory} {p : Point}
    {code : List Inst} (place : p.place = ⟨0⟩)
    (appends : (startPoint func args mem).draft.Appends ⟨0⟩ code p.draft)
    (inst : Option ValueId → Inst) : ((endWith inst).run p.draft).2.finish =
      ⟨#[⟨"entry", (code ++ [inst (some ⟨p.size⟩)]).toArray, some (.ret (some ⟨p.size⟩))⟩],
        p.draft.values.push ⟨.ptr, "r"⟩⟩ := by
  have isOpen := p.isOpen
  rw [place] at isOpen
  have noted : ({ p.draft with values := p.draft.values.push ⟨.ptr, "r"⟩ } : Draft).Open ⟨0⟩ :=
    ⟨isOpen.here, isOpen.block⟩
  have called : ((Draft.callBy .ptr "r" inst).run p.draft) = (some ⟨p.size⟩,
      { p.draft with
        values := p.draft.values.push ⟨.ptr, "r"⟩
        blocks := #[⟨"entry", (code ++ [inst (some ⟨p.size⟩)]).toArray, none⟩] }) := by
    refine Prod.ext rfl ((noted.emit (inst (some ⟨p.size⟩))).trans ?_)
    rw [blocks_of_appends appends, modify_singleton]
    simp
  have again : ((Draft.callBy .ptr "r" inst).run p.draft).2.Open ⟨0⟩ := by
    rw [called]
    exact ⟨isOpen.here, _, rfl, rfl⟩
  have closed := again.close (.ret (some ⟨p.size⟩))
  unfold endWith
  rw [StateT.run_bind]
  change Draft.finish ((Draft.close (.ret ((Draft.callBy .ptr "r" inst).run p.draft).1)).run
    ((Draft.callBy .ptr "r" inst).run p.draft).2).2 = _
  rw [called] at closed ⊢
  rw [closed, modify_singleton]
  rfl

/-- How a call ended, seen from some calls further out. -/
def outside (n : Nat) : EStateM.Result Trap State Value → EStateM.Result Trap State Value
  | .ok v st => .ok v { st with depth := st.depth - n }
  | .error t st => .error t { st with depth := st.depth - n }

theorem outside_outside (m n : Nat) (result : EStateM.Result Trap State Value) :
    outside m (outside n result) = outside (n + m) result := by
  cases result <;> simp [outside, Nat.sub_sub]

/-- The values at the start of a body: the arguments, and room for the others. -/
theorem read_start (args : List Value) {count : Nat} (room : args.length ≤ count) :
    Registers.read (args.take count ++ List.replicate (count - args.length) Value.undef).toArray =
      fun v => args.getD v.raw .undef := by
  funext v
  simp only [Registers.read, Array.getD_eq_getD_getElem?, List.getElem?_toArray,
    List.take_of_length_le room, List.getD_eq_getElem?_getD]
  by_cases inside : v.raw < args.length
  · rw [List.getElem?_append_left inside]
  · rw [List.getElem?_append_right (by omega), List.getElem?_eq_none (l := args) (by omega),
      List.getElem?_replicate]
    split <;> rfl

/-- The last instruction of a block is a call: what it gives is the result. -/
theorem execInsts_call {types : TypeTable} {invoke : Invoke} {r : Registers} {inst : Inst}
    {dst : ValueId} {target : Callee} {vals : List Value} {n : Nat} (st : State)
    (fuel : st.fuel = n + 1)
    (calls : ∀ st, execInst types invoke r inst st =
      (invoke target vals >>= fun v => pure (r.write dst v)) st) :
    execInsts types invoke r [inst] st =
      match invoke target vals { st with fuel := n } with
      | .ok v st' => .ok (r.write dst v) st'
      | .error t st' => .error t st' := by
  simp only [execInsts, Bind.bind, EStateM.bind, useFuel_eq fuel, calls]
  cases invoke target vals { st with fuel := n } <;> rfl

/-- With the values of a point, the instruction is a call. -/
def CallsAt (types : TypeTable) (p : Point) (inst : Inst) (dst : ValueId) (target : Callee)
    (vals : List Value) : Prop :=
  ∀ (invoke : Invoke) (r : Registers) (st : State), r.read = p.values →
    execInst types invoke r inst st = (invoke target vals >>= fun v => pure (r.write dst v)) st

theorem callsAt_call (types : TypeTable) (p : Point) (dst : ValueId) (func : FuncId)
    (args : List ValueId) :
    CallsAt types p (.call (some dst) func args) dst (.function func) (args.map p.values) := by
  intro invoke r st values
  rw [← values]
  rfl

theorem callsAt_callIndirect {p : Point} {callee : ValueId} {target : Callee} (types : TypeTable)
    (dst : ValueId) (sig : TyId) (args : List ValueId)
    (isTarget : (p.values callee).callee = .ok target) :
    CallsAt types p (.callIndirect (some dst) sig callee args) dst target (args.map p.values) := by
  intro invoke r st values
  rw [← values] at isTarget ⊢
  simp only [execInst, isTarget]
  rfl

theorem walk_single (types : TypeTable) (invoke : Invoke) {insts : List Inst} (name : String)
    (dst : ValueId) (values : Array ValueNote) (idle : Nat) (r : Registers)
    (budget : Nat) (st : State)
    (some : insts ≠ []) :
    walk types invoke ⟨#[⟨name, insts.toArray, .some (.ret (.some dst))⟩], values⟩ ⟨0⟩ idle r budget
      st = match execInsts types invoke r insts st with
        | .ok r' st' => .ok (r'.read dst) st'
        | .error t st' => .error t st' := by
  unfold walk
  simp only [List.getElem?_toArray, List.getElem?_cons_zero, List.isEmpty_toArray,
    List.isEmpty_iff, some, if_false]
  cases execInsts types invoke r insts st <;> rfl

/-- A body that ends in a call runs up to it, and hands over. -/
theorem walk_handsOver {types : TypeTable} {func : FuncId} {args : List Value} {p : Point}
    {code : List Inst} {inst : Option ValueId → Inst} {target : Callee} {vals : List Value}
    (invoke : Invoke) (st : State) (place : p.place = ⟨0⟩)
    (appends : (startPoint func args st.memory).draft.Appends ⟨0⟩ code p.draft)
    (runs : Runs types p.size (startPoint func args st.memory).values st.memory code p.values
      p.memory)
    (calls : CallsAt types p (inst (some ⟨p.size⟩)) ⟨p.size⟩ target vals)
    (fuel : code.length + 1 ≤ st.fuel) :
    execBody types invoke ((endWith inst).run p.draft).2.finish args st =
      invoke target vals { st with memory := p.memory, fuel := st.fuel - (code.length + 1) } := by
  rw [finish_endWith place appends]
  have room : args.length ≤ p.size + 1 := by
    have := appends.size_le
    have start := size_startPoint func args st.memory
    simp only [Point.size] at start ⊢
    omega
  have sized : (p.draft.values.push ⟨.ptr, "r"⟩).size = p.size + 1 := by simp [Point.size]
  obtain ⟨r, values, size, ran⟩ := runs invoke _ st (read_start args room) rfl
    (by simp; omega) (by omega)
  have inside : p.size < r.size := by
    rw [size]
    simp
    omega
  have called := execInsts_call (n := st.fuel - (code.length + 1))
    { st with memory := p.memory, fuel := st.fuel - code.length } (by dsimp only; omega) fun st =>
      calls invoke r st values
  simp only [execBody, sized]
  rw [walk_single _ _ _ _ _ _ _ _ _ (by simp), execInsts_append, ran]
  dsimp only
  rw [called]
  cases invoke target vals { st with memory := p.memory, fuel := st.fuel - (code.length + 1) } with
  | error t st' => rfl
  | ok v st' => simp [r.read_write (v := ⟨p.size⟩) v inside]

/-- A call of a function with a body runs the body. -/
theorem invoke_function {im : Image} {id : FuncId} {f : Function} {body : Code.Body}
    {args : List Value} {st : State} (levels : Nat) (known : im.code.function? id = some f)
    (arity : args.length = f.params.length) (hasBody : f.body = some body)
    (shallow : st.depth < maxDepth) :
    invoke im (levels + 1) (.function id) args st =
      nested (execBody im.code.types (invoke im levels) body args) st := by
  have notDeep : ¬ maxDepth ≤ st.depth := by omega
  simp only [invoke, known, arity, ne_eq, not_true_eq_false, if_false, hasBody]
  change (if maxDepth ≤ st.depth then _ else _ : Run Value) st = _
  rw [if_neg notDeep]

/-- A function whose body ends in a call hands over to what it calls. -/
theorem invoke_handsOver {im : Image} {func : FuncId} {name : String} {ret : TyId} {mem : Memory}
    {α : Type} {pre : Writing α} {Q : α → Point → Prop} {inst : α → Option ValueId → Inst}
    (args : List Value)
    (known : im.code.function? func = some ⟨name, List.replicate args.length .ptr, ret,
      some (writeBody func args.length (pre >>= fun a => endWith (inst a)))⟩)
    (does : Writing.Does (· = im.code.types) (startPoint func args mem) pre Q) :
    ∃ a p needed, (startPoint func args mem).Goes (· = im.code.types) p ∧ Q a p ∧
      ∀ (levels : Nat) (st : State) (target : Callee) (vals : List Value), st.memory = mem →
        CallsAt im.code.types p (inst a (some ⟨p.size⟩)) ⟨p.size⟩ target vals →
        st.depth < maxDepth → needed ≤ st.fuel →
        invoke im (levels + 1) (.function func) args st = outside 1 (invoke im levels target vals
          { st with depth := st.depth + 1, memory := p.memory, fuel := st.fuel - needed }) := by
  obtain ⟨p, draft, goes, here⟩ := does
  obtain ⟨code, appends, runs⟩ := goes.code
  refine ⟨_, p, code.length + 1, goes, here, ?_⟩
  rintro levels st target vals rfl calls shallow fuel
  have body : writeBody func args.length (pre >>= fun a => endWith (inst a)) =
      ((endWith (inst (pre.run (startPoint func args st.memory).draft).1)).run
          p.draft).2.finish := by
    rw [draft]
    rfl
  have ran := walk_handsOver (invoke im levels) { st with depth := st.depth + 1 } goes.place appends
    (runs _ rfl) calls fuel
  rw [invoke_function levels known (by simp) rfl shallow, body, nested, ran]
  cases invoke im levels target vals _ <;> rfl

end Machine

end ShapeCompiler
