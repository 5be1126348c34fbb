import ShapeCompiler.Proofs.WellFormed

/-!
# What is recorded of closures

A body is recorded with a result of which nothing may be known yet, before it is compiled. Closures
of it can be made meanwhile, and what is recorded of a closure first stays.

* `Compile.entry_registered`: in the end what is recorded of closures agrees with what is recorded
  of bodies, since every part of the compiler keeps this (`Work.Reaches.registered`);
* `closures_recorded`: so the environment, the parameters and the result of a closure are those of
  its body, but for a result that nothing declares.

Such a result is taken for anything where a body makes a closure of itself
(`own_closure_result_unknown`).
-/

namespace ShapeCompiler

open Source Code Work

theorem Work.opened_registered (s : Setup) (c : Config) : (Work.opened c).Registered s where
  declared _ _ := by rintro ⟨⟩
  apart _ _ _ _ := by rintro ⟨⟩
  closures _ _ := by rintro ⟨⟩

/-- Once the statements at the top are compiled, what is recorded of closures agrees with what is
recorded of bodies. -/
theorem Compile.entry_registered {p : Program} {r : Resolver} {c : Config} {l : Lowering}
    (hl : l.Walks (.of p r c)) {func : FuncId} {w' : Work}
    (ran : entry l (.of p r c) .start = .ok func w') : w'.Registered (.of p r c) := by
  obtain ⟨-, w, frame, wrote, rfl⟩ := of_entry_ok ran
  obtain ⟨there, _⟩ := ((whole_walks hl).ends (opened_sound p r c).moment (by rintro _ ⟨⟩)).of_ok
    wrote
  exact (there.registered (opened_registered _ c)).define _ _

/-- A compiled program was compiled from its statements at the top. -/
theorem of_compileUnitWithin {limit : Nat} {p : Program} {r : Resolver} {c : Config}
    {u : CompiledUnit}
    (compiled : compileUnitWithin limit p r c = .ok u) :
    ∃ w, Compile.entry (.ofDepth limit) (.of p r c) .start = .ok u.entry w ∧ u.code = w.code ∧
      u.registry = w.registry := by
  unfold compileUnitWithin at compiled
  split at compiled
  · rename_i entry w ran
    cases compiled
    exact ⟨w, ran, rfl, rfl⟩
  · cases compiled

/-- In a compiled program, each function that is bound to a closure is that of one recorded body,
and the environment and the parameters recorded of the closure are those of the body. So is the
result, unless nothing declares it: then it may have been taken for anything. -/
theorem closures_recorded (limit : Nat) (p : Program) (r : Resolver) (c : Config) {u : CompiledUnit}
    (compiled : compileUnitWithin limit p r c = .ok u) :
    ∃ w, Compile.entry (.ofDepth limit) (.of p r c) .start = .ok u.entry w ∧ u.code = w.code ∧
      u.registry = w.registry ∧ ∀ f rec, u.registry.closure? f = some rec →
        ∃ key body, w.functions.get? key = some body ∧ body.func = f ∧
          (∀ key' body', w.functions.get? key' = some body' → body'.func = f →
            key' = key ∧ body' = body) ∧
          rec.env = body.env ∧ rec.params = body.params ∧
          (rec.ret = body.ret ∨ rec.ret = .any ∧ p.ResultOpen key.subject) := by
  obtain ⟨w, ran, isCode, isRegistry⟩ := of_compileUnitWithin compiled
  have registered := Compile.entry_registered (Lowering.ofDepth_walks limit) ran
  refine ⟨w, ran, isCode, isRegistry, fun f rec bound => ?_⟩
  rw [isRegistry] at bound
  obtain ⟨key, body, known, rfl, env, params, ret⟩ := registered.closures f rec bound
  refine ⟨key, body, known, rfl, fun key' body' known' same => ?_, env, params, ret⟩
  obtain rfl := registered.apart key key' body body' known known' same
  exact ⟨rfl, Option.some.inj (known'.symm.trans known)⟩

/-- A function that makes a closure of itself, and gives a truth value. -/
@[irreducible] def heldInside : Program := (Id.run <| StateT.run (do
  let (held, _) ← Construction.bind "g" none (some (← Construction.ident "f"))
  let last ← Construction.stmt (.ret (some (← Construction.expr (.bool true))))
  let f ← Construction.function "f" [] [] none [held, last]
  Construction.pushEntry (← Construction.stmt (.function f))
  Construction.pushEntry (← Construction.stmt (.expr (← Construction.expr
    (.call (← Construction.ident "f") [] (some f))))) : Building Unit) {}).2.program

/-- The state once the program is compiled. -/
def heldInsideWork : Work :=
  Compile.endOf (Compile.entry (.ofDepth 20)) (.of heldInside .ambient {}) .start

/-- The program compiles. -/
theorem heldInside_compiles : ∃ u, compileUnitWithin 20 heldInside .ambient {} = .ok u ∧
    u.registry = heldInsideWork.registry ∧
    Compile.entry (.ofDepth 20) (.of heldInside .ambient {}) .start =
    .ok u.entry heldInsideWork := by
  have succeeds : (Compile.entry (.ofDepth 20)).gives (.of heldInside .ambient {}) .start
      (fun _ => true) = true := by
    decide +kernel
  obtain ⟨entry, ran, _⟩ := Compile.of_gives succeeds
  refine ⟨⟨heldInsideWork.code, heldInsideWork.registry, entry⟩, ?_, rfl, ran⟩
  simp only [compileUnitWithin, ReaderT.run, EStateM.run]
  rw [ran]
  rfl

/-- The environment and the parameters of the closure are those of the body. -/
theorem closures_recorded_heldInside : ∃ u w rec key body,
    compileUnitWithin 20 heldInside .ambient {} = .ok u ∧
    Compile.entry (.ofDepth 20) (.of heldInside .ambient {}) .start = .ok u.entry w ∧
    u.registry.closure? ⟨2⟩ = some rec ∧ w.functions.get? key = some body ∧ body.func = ⟨2⟩ ∧
    rec.env = body.env ∧ rec.params = body.params := by
  obtain ⟨u, compiled, isRegistry, _⟩ := heldInside_compiles
  have isBound : (heldInsideWork.registry.closure? ⟨2⟩).isSome := by decide +kernel
  obtain ⟨rec, bound⟩ := Option.isSome_iff_exists.mp isBound
  rw [← isRegistry] at bound
  obtain ⟨w, ran, _, _, each⟩ := closures_recorded 20 heldInside .ambient {} compiled
  obtain ⟨key, body, known, isFunc, _, env, params, _⟩ := each ⟨2⟩ rec bound
  exact ⟨u, w, rec, key, body, compiled, ran, bound, known, isFunc, env, params⟩

/-- The body gives a truth value, and what is recorded of its closure is that it gives anything. -/
theorem own_closure_result_unknown : ∃ u w rec key body,
    compileUnitWithin 20 heldInside .ambient {} = .ok u ∧
    Compile.entry (.ofDepth 20) (.of heldInside .ambient {}) .start = .ok u.entry w ∧
    u.registry.closure? ⟨2⟩ = some rec ∧ w.functions.get? key = some body ∧ body.func = ⟨2⟩ ∧
    rec.ret = .any ∧ body.ret = .boolean := by
  obtain ⟨u, compiled, isRegistry, ran⟩ := heldInside_compiles
  have closure : (heldInsideWork.registry.closure? ⟨2⟩).map (·.ret) = some .any := by decide +kernel
  have recorded : (heldInsideWork.functions.get? ⟨.function ⟨1⟩, none, [], []⟩).map
      (fun body => (body.func, body.ret)) = some (⟨2⟩, .boolean) := by
    decide +kernel
  obtain ⟨rec, bound, taken⟩ := Option.map_eq_some_iff.mp closure
  obtain ⟨body, known, isBody⟩ := Option.map_eq_some_iff.mp recorded
  obtain ⟨isFunc, isRet⟩ := Prod.mk.inj isBody
  exact ⟨u, heldInsideWork, rec, _, body, compiled, ran, isRegistry ▸ bound, known,
    isFunc, taken, isRet⟩

end ShapeCompiler
