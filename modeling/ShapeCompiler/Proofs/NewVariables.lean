import ShapeCompiler.Proofs.Jumps

/-!
# New variables

A new variable is kept in a global at the top of a program, and elsewhere in a cell of its own.
`Emit.newVariable_binds`: the compiler finds a place for it, names it, and writes what puts its
first value there.
-/

namespace ShapeCompiler

open Source Code Work Machine
open Source.Program (AmbientCall)

/-! ## Memory -/

namespace Machine.Memory

variable {m : Memory} {j : Nat} {v : Scalar} {hidden : List Nat}

/-- A new cell with the address of a box. -/
theorem variable_push (box : m.heap[j]? = some v.value) (apart : j ∉ hidden) :
    (m.push (address j)).Variable hidden (address m.heap.size) v := by
  refine .mk (r := .heap m.heap.size) ?_ rfl (heap_push_lt _ box) apart
  rw [root, heap_push]

/-- A global with the address of a box. -/
theorem variable_global {g : GlobalId} {c : Cell} (known : m.globals[g.raw]? = some c)
    (writable : c.readonly = false) (box : m.heap[j]? = some v.value) (apart : j ∉ hidden) :
    (m.setRoot (address j) (.global g)).Variable hidden (.ptr (Region.global g).root) v := by
  have there : (m.setRoot (address j) (.global g)).globals[g.raw]? =
      some { c with value := address j } := by
    simp [setRoot, Array.getElem?_modify, known]
  refine .mk ?_ ?_ box apart
  · rw [root, there]
  · rw [guardWrite_setRoot, guardWrite, known]
    simp [writable]

end Machine.Memory

/-! ## What the compiler does -/

variable {S : Setting} {s : Setup} {x : Stage} {f f' f₀ : Frame} {w w' w₀ : Work} {Δ : Layout}
  {vars : Variables}
  {level : Nat} {n : Name} {d : DeclId} {info : Info} {p : ValueId} {τ : Prim} {v : Scalar}

/-- A name means a variable that is kept at a place. The rest of the body and the functions of the
module are as before. -/
structure Frame.Binds (n : Name) (τ : Prim) (home : Home) (f : Frame) (w : Work)
    (f' : Frame) (w' : Work) :
    Prop where
  bindings : f'.scope.bindings = f.scope.bindings.insert n (home.binding τ)
  frame : f' = { f with draft := f'.draft, scope := f'.scope }
  functions : w'.code.functions = w.code.functions
  below : home.Below w'.code.globals.size

/-- Behind some code the compiler gives names another meaning. -/
theorem Stage.Reports.renamed {f₁ : Frame} {Δ' : Layout} {vars' : Variables} {z : Stage}
    (reports : x.Reports S.world [] z) (isFrame : z.frame = f₁) (same : f.draft = f₁.draft)
    (represents : z.point.Represents [] Δ' vars') (upholds : z.memory.Upholds S.fin.code) :
    ∃ y : Stage, y.Visits S f w Δ' vars' ∧ x.Reports S.world [] y := by
  subst isFrame
  have samePoint : (z.placed f w z.place (same ▸ z.isOpen)).point = z.point := z.point_placed same
  refine ⟨z.placed f w z.place (same ▸ z.isOpen),
    ⟨rfl, rfl, samePoint ▸ represents, upholds⟩, ?_, ?_⟩
  · intro b waits
    exact show f.draft.Waits b from same ▸ reports.waits b waits
  · exact samePoint ▸ reports.point

namespace Emit

theorem atTop_apply (f : Frame) (s : Setup) (w : Work) :
    atTop f s w = .ok (f.isEntry && decide (f.depth = 0), f) w := rfl

/-- Away from the top a variable is kept in a new cell. -/
theorem of_newVariable_inner (inner : (f.isEntry && decide (f.depth = 0)) = false)
    (ran : newVariable d n info p f s w = .ok ((), f') w') : ∃ cell f₁,
      newCell p (s.program.text n) f s w = .ok (cell, f₁) w' ∧
      f' = { f₁ with scope := f₁.scope.bindDeclared n d cell info } := by
  obtain ⟨_, _, _, asked, ran₁⟩ := of_bind_ok ran
  cases asked
  obtain ⟨_, _, _, asked, ran₂⟩ := of_bind_ok ran₁
  cases (atTop_apply f s w).symm.trans asked
  rw [inner] at ran₂
  obtain ⟨cell, f₁, w₁, made, last⟩ := of_bind_ok ran₂
  cases last
  exact ⟨cell, f₁, made, rfl⟩

/-- A name gets another meaning, and nothing else does. -/
theorem of_bindName_ok {b : Binding} (ran : bindName n b f s w = .ok ((), f') w') :
    f' = { f with scope := f.scope.bind n b } ∧ w'.code = w.code := by
  obtain ⟨_, _, _, bound, ran₁⟩ := of_bind_ok ran
  cases bound
  obtain ⟨top, _, _, asked, ran₂⟩ := of_bind_ok ran₁
  cases asked
  split at ran₂ <;> cases ran₂ <;> exact ⟨rfl, rfl⟩

/-- The code that puts a pointer into a global. -/
def setGlobal (g : GlobalId) (p : ValueId) : Emit Unit := do
  let addr ← Draft.globalAddr g
  Draft.store p addr

theorem setGlobal_apply (g : GlobalId) (p : ValueId) (f : Frame) (s : Setup) (w : Work) :
    setGlobal g p f s w = .ok ((), (f.wrote (Draft.globalAddr g)).wrote
      (Draft.store p ((Draft.globalAddr g).run f.draft).1)) w := rfl

/-- At the top a variable is kept in a new global. -/
theorem of_newVariable_top (top : (f.isEntry && decide (f.depth = 0)) = true)
    (ran : newVariable d n info p f s w = .ok ((), f') w') : ∃ name w₁ f₁,
      w₁ = { w with code := (w.code.pushGlobal ⟨name, .ptr, false, some .zero⟩).2 } ∧
      setGlobal ⟨w.code.globals.size⟩ p f s w₁ = .ok ((), f₁) w₁ ∧
      f' = { f₁ with scope := f₁.scope.bind n (.global ⟨w.code.globals.size⟩ info) } ∧
          w'.code = w₁.code := by
  obtain ⟨_, _, _, asked, ran₁⟩ := of_bind_ok ran
  cases asked
  obtain ⟨_, _, _, asked, ran₂⟩ := of_bind_ok ran₁
  cases (atTop_apply f s w).symm.trans asked
  rw [top] at ran₂
  obtain ⟨g, f₁, w₁, lifted, ran₃⟩ := of_bind_ok ran₂
  obtain ⟨rfl, made⟩ := of_lift_ok lifted
  have regrouped : (setGlobal g p >>= fun _ => bindName n (.global g info)) f s w₁ =
      .ok ((), f') w' := by
    rw [setGlobal, bind_assoc]
    exact ran₃
  obtain ⟨_, f₂, w₂, wrote, bound⟩ := of_bind_ok regrouped
  cases (setGlobal_apply g p f s w₁).symm.trans wrote
  obtain ⟨isFrame, isCode⟩ := of_bindName_ok bound
  cases made
  exact ⟨_, _, _, rfl, setGlobal_apply _ _ _ _ _, isFrame, isCode⟩

/-- A box is put into a new cell. -/
theorem cell_binds {level : Nat} (scene : S.Scene (level + 1) Δ f₀ w₀)
    (visited : ∃ (x : Stage) (vars : Variables), x.Visits S f₀ w₀ Δ vars ∧ ∃ val, x.Knows p val)
    (ran : newVariable d n τ.info p f₀ S.setup w₀ = .ok ((), f) w) : ∃ home,
      f₀.Binds n τ home w₀ f w ∧ ∀ (x : Stage) vars v, x.Visits S f₀ w₀ Δ vars →
      Boxes [] v p x → v.prim = τ →
        ∃ z : Stage, z.Visits S f w ((n, home, τ) :: Δ) ((n, v) :: vars) ∧
        x.Reports S.world [] z := by
  have inner : (f₀.isEntry && decide (f₀.depth = 0)) = false := by simp [scene.depth]
  obtain ⟨cell, f₁, made, rfl⟩ := of_newVariable_inner inner ran
  have each (x : Stage) (vars val) (visits : x.Visits S f₀ w₀ Δ vars) (known : x.Knows p val) :
      ∃ y : Stage, y.frame = f₁ ∧ y.work = w ∧ x.Follows S.world y ∧
        y.Knows cell (address x.memory.heap.size) ∧
        y.memory = x.memory.push val := by
    have ready := scene.ready visits
    obtain ⟨rfl, rfl, -, -⟩ := visits
    obtain ⟨y, isFrame, isWork, follows, isCell, memory, -⟩ := Takes.of_does
      (newCell_does _ ready.moment known) (fun _ _ here => here.2.2) ready.admitted cell f₁ w made
    exact ⟨y, isFrame, isWork, follows, isCell, memory⟩
  obtain ⟨x, vars, visits, val, known⟩ := visited
  obtain ⟨y, rfl, isWork, follows, -⟩ := each x vars val visits known
  obtain rfl : w = w₀ := isWork.symm.trans (follows.work.trans visits.work)
  have sameFrame : y.frame = { f₀ with draft := y.frame.draft } := visits.frame ▸ follows.frame
  have bindings : y.frame.scope.bindings = f₀.scope.bindings := by rw [sameFrame]
  refine ⟨.cell cell, ⟨congrArg (·.insert n (Binding.cell cell τ.info)) bindings, ?_, rfl, trivial⟩,
    ?_⟩
  · rw [sameFrame]
  · rintro x vars v visits ⟨j, isBox, box, apart⟩ isPrim
    obtain ⟨z, isFrame, isWork, follows, isCell, memory⟩ := each x vars _ visits isBox
    have keeps : x.memory.Keeps [] z.memory := memory ▸ Memory.keeps_push _ _
    have isAddress : z.values cell = address x.memory.heap.size := isCell.value
    have holds : z.memory.Variable [] (z.values cell) v := by
      rw [isAddress, memory]
      exact Memory.variable_push box apart
    have new : ∀ e ∈ Δ, e.2.1.address z.values ≠ z.values cell := by
      intro e here same
      have address := Home.address_eq (visits.represents.inside e here) follows.retains.kept
      exact visits.represents.address_ne_new e here (address.symm.trans (same.trans isAddress))
    have represents : z.point.Represents [] ((n, .cell cell, v.prim) :: Δ) ((n, v) :: vars) :=
      (follows.represents visits.represents keeps).bind isCell.inside ⟨_, isAddress⟩ holds new
    rw [isPrim] at represents
    exact follows.reports.renamed isFrame rfl represents (visits.upholds.keeps keeps)

/-- In a run there is a global from the start, which the compiler has only just declared. -/
theorem globals_ofModule {fin : Work} {name : String} (later : Later s w fin)
    (isCode : w.code = (w₀.code.pushGlobal ⟨name, .ptr, false, some .zero⟩).2) :
    (Memory.ofModule fin.code).globals[w₀.code.globals.size]? =
      some ⟨name, zeroValue fin.code.types .ptr, false⟩ := by
  have known : fin.code.global? ⟨w₀.code.globals.size⟩ = some ⟨name, .ptr, false, some .zero⟩ := by
    refine later.extends.code.global _ _ ?_
    rw [isCode]
    simp [Code.Module.pushGlobal, Code.Module.global?]
  replace known : fin.code.globals[w₀.code.globals.size]? = _ := known
  simp [Memory.ofModule, known, initialValue]

/-- A pointer is put into a global. -/
theorem setGlobal_takes {W : World} {g : GlobalId} {c : Cell} {j : Nat}
    (admitted : x.Admits W.types)
    (isBox : x.Knows p (address j)) (isCell : x.memory.globals[g.raw]? = some c)
    (writable : c.readonly = false) :
    Takes s W x (setGlobal g p) fun _ z => z.memory = x.memory.setRoot (address j) (.global g) := by
  refine .bind (.gives admitted (.const (.global g) _)) ?_
  rintro a y follows ⟨isAddress, memory⟩
  have stored : y.memory.store (y.values a) (y.values p) =
      .ok (x.memory.setRoot (address j) (.global g)) := by
    have isPtr : y.values p = address j := (follows.knows isBox).value
    have isTarget : y.values a = .ptr (Region.global g).root := isAddress.value
    rw [isTarget, isPtr, memory]
    exact Memory.store_global isCell writable _
  refine (Takes.store ?_ stored).mono fun _ _ _ stores => stores.2
  rw [Stage.Admits, follows.work]
  exact admitted

/-- A box is put into a new global. -/
theorem global_binds (scene : S.Scene 0 Δ f₀ w₀)
    (ran : newVariable d n τ.info p f₀ S.setup w₀ = .ok ((), f) w) (later : Later S.setup w S.fin) :
    ∃ home,
      f₀.Binds n τ home w₀ f w ∧ ∀ (x : Stage) vars v, x.Visits S f₀ w₀ Δ vars →
      Boxes [] v p x → v.prim = τ →
        ∃ z : Stage, z.Visits S f w ((n, home, τ) :: Δ) ((n, v) :: vars) ∧
        x.Reports S.world [] z := by
  have top : (f₀.isEntry && decide (f₀.depth = 0)) = true := by simp [scene.isEntry, scene.depth]
  obtain ⟨name, w₁, f₁, isWork, wrote, isFrame, isCode⟩ := of_newVariable_top top ran
  let g : GlobalId := ⟨w₀.code.globals.size⟩
  have isCode' : w.code = (w₀.code.pushGlobal ⟨name, .ptr, false, some .zero⟩).2 := by rw [isCode,
    isWork]
  have sameFrame : f₁ = { f₀ with draft := f₁.draft } := by
    cases (setGlobal_apply g p f₀ S.setup w₁).symm.trans wrote
    rfl
  have bindings : f₁.scope.bindings = f₀.scope.bindings := by rw [sameFrame]
  refine ⟨.global g, ⟨?_, ?_, ?_, ?_⟩, ?_⟩
  · rw [isFrame]
    exact congrArg (·.insert n (Binding.global g τ.info)) bindings
  · rw [isFrame, sameFrame]
  · rw [isCode']
    rfl
  · rw [isCode']
    exact (Nat.lt_succ_self _).trans_eq (Array.size_push _).symm
  have isCell := globals_ofModule later isCode'
  rintro x vars v visits ⟨j, isBox, box, apart⟩ isPrim
  obtain ⟨u, here, -⟩ := visits.upholds _ _ isCell
  have admitted : (x.later w₁).Admits S.world.types := by
    have types : w₁.code.types = w₀.code.types := by rw [isWork]; rfl
    change w₁.code.types.Grows S.world.types
    rw [types, ← visits.work]
    exact (scene.ready visits).admitted
  have takes : Takes S.setup S.world (x.later w₁) (setGlobal g p) fun _ z =>
      z.memory = x.memory.setRoot (address j) (.global g) := setGlobal_takes admitted isBox here rfl
  obtain ⟨rfl, rfl, represents, upholds⟩ := visits
  obtain ⟨z, isFrame', isWork', follows, memory⟩ := takes () f₁ w₁ wrote
  have retains : x.point.Retains z.point := follows.retains
  have slot : x.memory.Slot (.global g) := trivial
  have away := represents.address_ne_global scene.below
  have represents' : z.point.Represents [] Δ vars := by
    refine represents.mono retains (fun e inside u there => ?_) (List.forall_mem_nil _)
    exact show z.memory.Variable [] _ u from memory ▸ there.setRoot slot _ (away e inside)
  have holds : z.memory.Variable [] (.ptr (Region.global g).root) v := by
    rw [memory]
    exact Memory.variable_global here rfl box apart
  have new : ∀ e ∈ Δ, e.2.1.address z.values ≠ .ptr (Region.global g).root := by
    intro e inside same
    have address := Home.address_eq (represents.inside e inside) retains.kept
    exact away e inside (address.symm.trans same)
  have bound : z.point.Represents [] ((n, .global g, v.prim) :: Δ) ((n, v) :: vars) :=
    represents'.bind trivial trivial holds new
  rw [isPrim] at bound
  refine Stage.Reports.renamed (z := z) ⟨follows.waits, follows.point⟩ isFrame'
    (isFrame ▸ rfl) bound ?_
  rw [memory]
  exact upholds.stored isCell rfl _

/-- The compiler finds a place for a new variable, and writes what puts its first value there. -/
theorem newVariable_binds (scene : S.Scene level Δ f₀ w₀)
    (visited : ∃ (x : Stage) (vars : Variables), x.Visits S f₀ w₀ Δ vars ∧ ∃ val, x.Knows p val)
    (ran : newVariable d n τ.info p f₀ S.setup w₀ = .ok ((), f) w) (later : Later S.setup w S.fin) :
    ∃ home,
      f₀.Binds n τ home w₀ f w ∧ ∀ (x : Stage) vars v, x.Visits S f₀ w₀ Δ vars →
      Boxes [] v p x → v.prim = τ →
        ∃ z : Stage, z.Visits S f w ((n, home, τ) :: Δ) ((n, v) :: vars) ∧
        x.Reports S.world [] z := by
  cases level with
  | zero => exact global_binds scene ran later
  | succ level => exact cell_binds scene visited ran

end Emit

end ShapeCompiler
