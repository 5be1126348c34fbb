import ShapeCompiler.Proofs.Dispatch
import ShapeCompiler.Proofs.Evaluation
import ShapeCompiler.Proofs.Signatures
import ShapeCompiler.Proofs.Thunks

/-!
# What stands in the slots of tables

* `Thunk`: a function of the shared table and the body that it hands over to;
* `Serves`: what stands in a slot of an object's table, shared or its own, and the body behind it;
* `Equipped`: every slot is served by the method that the classes of the object declare first;
* `Emit.installTable_equips`: a new instance is equipped;
* `virtual_slots_fit`: what stands in a slot takes what a call passes, as far as the methods declare
  the same.

An override may have fewer parameters than the method that calls are compiled for; then the call is
refused (`shorter_override_refuses`).
-/

namespace ShapeCompiler

open Source Code Work Machine

/-! ## The shared table -/

/-- The method is compiled for the class, and not supplied from outside. -/
def Setup.Compiles (s : Setup) (cls m : DeclId) : Prop :=
  (s.resolver.resolve s.program m [] (some (.instanceOf cls))).external = false

instance (s : Setup) (cls m : DeclId) : Decidable (s.Compiles cls m) :=
  inferInstanceAs (Decidable (_ = false))

theorem Work.Later.keeps_body {s : Setup} {w w' : Work} (h : Later s w w') {f : FuncId}
    {fn : Function} (apart : f ≠ s.runtime.call) (known : w.code.function? f = some fn)
    (has : fn.body.isSome) : w'.code.function? f = some fn := by
  obtain ⟨body, there, kept⟩ := h.extends.code.function f fn known
  rcases kept has with loose | rfl
  · exact absurd loose.2 apart
  · exact there

/-- The call of closures is always there. -/
theorem Work.Moment.ne_call {s : Setup} {w : Work} (h : Moment s w)
    (standard : s.runtime = startModule.1) {f : FuncId} (new : w.code.function? f = none) :
    f ≠ s.runtime.call := by
  rintro rfl
  have known : Work.start.code.function? startModule.1.call = some ⟨closureCallName, [.ptr], .ptr,
      some (closureCallBody startModule.1.closure startModule.1.bodySig startModule.1.call)⟩ := rfl
  obtain ⟨body, there, _⟩ := h.extends.code.function _ _ known
  rw [standard, there] at new
  cases new

/-- The function hands over to the body of a method for a class, with the object and the arguments
in a new environment. -/
structure Thunk (s : Setup) (base w : Work) (root m : DeclId) (c : CompiledFunction)
    (func : FuncId) :
    Prop where
  asked : AskedSince s base w (some root) m c
  bound : w.registry.declEnv? m = some c.env
  apart : func ≠ s.runtime.call
  code : ∃ e name, w.registry.env? c.env = some e ∧ e.slots.any (·.isCaptured) = false ∧
    w.code.function? func = some ⟨name, List.replicate (e.paramCount + 1) .ptr, .ptr,
      some (writeBody func (e.paramCount + 1) (thunkSteps e c.func))⟩

namespace Thunk

variable {s : Setup} {base w : Work} {root m : DeclId} {c : CompiledFunction} {func : FuncId}

theorem later {w' : Work} (h : Thunk s base w root m c func) (later : Later s w w') :
    Thunk s base w' root m c func := by
  obtain ⟨e, name, known, plain, defined⟩ := h.code
  exact ⟨h.asked.later later, later.extends.registry.declEnv _ _ h.bound, h.apart, e, name,
    later.extends.registry.env _ _ known, plain, later.keeps_body h.apart defined rfl⟩

theorem earlier {first : Work} (h : Thunk s base w root m c func) (there : Reaches s first base) :
    Thunk s first w root m c func := { h with asked := h.asked.earlier there }

end Thunk

namespace Compile

variable {s : Setup} {w w' base : Work} {l : Lowering}

/-- What is compiled for a class is bound to its declaration. -/
theorem of_body_ok {cls m : DeclId} {infos : List Info} {c : CompiledFunction} (hl : l.Walks s)
    (moment : Moment s w) (ran : l.body (.function m) (some cls) infos s w = .ok c w') :
    Reaches s w w' ∧ CompiledFor s w' cls m c ∧ w'.registry.declEnv? m = some c.env := by
  obtain ⟨there, key, isSubject, isClass, recorded⟩ :=
    (hl.body moment (.function m) (some cls) infos).of_ok ran
  have moment' := moment.later there.later
  have bound := (moment'.function_made key c recorded).1
  rw [isSubject] at bound
  exact ⟨there, ⟨w', moment', .same, key, isSubject, isClass, recorded⟩, bound⟩

/-- A pending function gets a body that hands over. -/
theorem defineThunk_stands (standard : s.runtime = startModule.1) (hl : l.Walks s)
    (start : Moment s base) (there : Reaches s base w) {thunk : FuncId} (root : DeclId) {m : DeclId}
    (new : base.code.function? thunk = none)
    (absent : ∃ fn, w.code.function? thunk = some fn ∧ fn.body = none) (takes : Takes s w thunk m)
    {a : Unit} (ran : defineThunk l thunk root m s w = .ok a w') :
    ∃ c, Thunk s base w' root m c thunk := by
  have moment := start.later there.later
  obtain ⟨c, w₁, ran₁, ran₂⟩ := of_bind_ok ran
  obtain ⟨there₁, -, bound⟩ := of_body_ok hl moment ran₁
  have moment₁ := moment.later there₁.later
  obtain ⟨e, w₂, ran₃, ran₄⟩ := of_bind_ok ran₂
  obtain ⟨known, rfl⟩ := of_env_ok ran₃
  obtain ⟨decl, name, body, isDecl, declared⟩ := takes
  obtain ⟨_, declared', isAbsent⟩ := absent
  cases declared.symm.trans declared'
  obtain rfl : body = none := isAbsent
  replace declared := there₁.keeps _ _ declared
  rw [← paramCount_of_declEnv moment₁ bound known isDecl] at declared
  split at ran₄
  · obtain ⟨_, w₃, _, never⟩ := of_bind_ok ran₄
    cases never
  · rename_i plain
    obtain ⟨_, later, defined⟩ := (Since.define (Q := fun _ w' => Later s w₁ w' ∧
      w'.code.function? thunk = some ⟨name, List.replicate (e.paramCount + 1) .ptr, .ptr,
        some (writeBody thunk (e.paramCount + 1) (thunkSteps e c.func))⟩)
      _ (there.trans there₁) new declared rfl
      fun _ later _ defined _ => ⟨later, defined⟩).of_ok ran₄
    exact ⟨c, ⟨l, w, w₁, hl, moment, there, ran₁, later⟩, later.extends.registry.declEnv _ _ bound,
      start.ne_call standard new, e, name, later.extends.registry.env _ _ known,
      by simpa using plain, defined⟩

/-- The pending functions get their bodies one after the other. -/
theorem defineThunks_stand (standard : s.runtime = startModule.1) (hl : l.Walks s)
    (start : Moment s base) (root : DeclId) (pairs : List ((FuncId × Bool) × Name × DeclId))
    (there : Reaches s base w) (pending : Pending base w (pairs.map (·.1)))
    (takes : ∀ thunk n m, ((thunk, true), (n, m)) ∈ pairs → Takes s w thunk m) {a : Unit}
    (ran : (pairs.forM fun ((thunk, pending), (_, m)) => do
      if pending then defineThunk l thunk root m) s w = .ok a w') :
    ∀ thunk n m, ((thunk, true), (n, m)) ∈ pairs → ∃ c, Thunk s base w' root m c thunk := by
  induction pairs generalizing w with
  | nil => simp
  | cons pair pairs ih =>
    obtain ⟨⟨thunk, isPending⟩, n, m⟩ := pair
    have moment := start.later there.later
    obtain ⟨_, w₁, ran₁, ran₂⟩ := of_bind_ok ran
    obtain ⟨there₁, later₁, pending₁⟩ :=
      (definePending_since hl root n m there moment pending).of_ok ran₁
    obtain ⟨_, later₂⟩ :=
      (defineThunks_since hl root pairs there₁ (moment.later later₁) pending₁).of_ok ran₂
    intro thunk' n' m' inside
    rcases List.mem_cons.mp inside with isFirst | isLater
    · cases isFirst
      obtain ⟨c, stands⟩ := defineThunk_stands standard hl start there root
        (pending.new thunk (by simp)) (pending.absent thunk (by simp))
        (takes thunk n m (by simp)) ran₁
      exact ⟨c, stands.later later₂⟩
    · exact ih there₁ pending₁ (fun thunk n m inside =>
        (takes thunk n m (by simp [inside])).later later₁) ran₂ thunk' n' m' isLater

/-- What is compiled for the class still needs its body. -/
theorem tableEntry_pending (moment : Moment s w) (root : DeclId) (n : Name) (m : DeclId) :
    Ends s w (tableEntry root n m) fun entry _ => s.Compiles root m → entry.2 = true := by
  have resolved : Ends s w (resolve m [] (some (.instanceOf root))) fun resolution w' =>
      resolution = s.resolver.resolve s.program m [] (some (.instanceOf root)) ∧ w' = w :=
    ⟨.refl w, rfl, rfl⟩
  refine asks_bind fun _ _ => resolved.bind ?_
  rintro _ _ - ⟨rfl, rfl⟩
  split
  · rename_i isExternal
    refine ((externalFunction_walks _ _).ends moment).bind fun _ _ _ _ => .pure fun compiles => ?_
    rw [Setup.Compiles, isExternal] at compiles
    cases compiles
  · refine ((declName_walks root).ends moment).bind fun _ w₁ there₁ _ => ?_
    have moment₁ := moment.later there₁.later
    refine ((text_walks n).ends moment₁).bind fun _ w₂ there₂ _ => ?_
    exact ((declareCompiled_walks _ _).ends (moment₁.later there₂.later)).bind fun _ _ _ _ =>
      .pure fun _ => rfl

theorem openTable_pending (moment : Moment s w) {root : DeclId} {array : TyId} {length : Nat}
    {methods : List (Name × DeclId)} {t : MethodTable} {entries : List (FuncId × Bool)}
    (ran : openTable root array length methods s w = .ok (t, entries) w') :
    List.Forall₂ (fun method entry => s.Compiles root method.2 → entry.2 = true)
    methods entries := by
  obtain ⟨_, w₁, ran₁, ran⟩ := of_bind_ok ran
  cases ran₁
  obtain ⟨entries', w₂, ran₂, ran⟩ := of_bind_ok ran
  obtain ⟨_, all⟩ := (Ends.mapM (P := fun (method : Name × DeclId) (entry : FuncId × Bool) =>
    s.Compiles root method.2 → entry.2 = true) (fun (n, m) w moment =>
      tableEntry_pending moment root n m) moment methods).of_ok ran₂
  cases ran
  exact all

/-- In a new table that is not supplied from outside, the functions of methods that are compiled
hand over to them. -/
theorem tableOf_stands (standard : s.runtime = startModule.1) (hl : l.Walks s) (moment : Moment s w)
    {root : DeclId} {t : MethodTable} (own : s.resolver.tableSymbol s.program root = none)
    (new : w.tables.get? root = none) (ran : tableOf l root s w = .ok t w') :
    ∃ functions : List FuncId, t.Holds w' functions ∧ ∀ (i : Nat) n m, t.methods[i]? = some (n, m) →
      s.Compiles root m → ∃ func c, functions[i]? = some func ∧ Thunk s w w' root m c func := by
  obtain ⟨methods, cls, length, array, w₁, virtuals, isClass, isLength, enough, ran₁, ran⟩ :=
    of_tableOf_new new ran
  obtain ⟨there₁, isArray, same⟩ := of_types_array ran₁
  have moment₁ := moment.later there₁.later
  rw [← same] at new
  simp only [own, emitTable_eq] at ran
  obtain ⟨⟨t', entries⟩, w₂, ran₂, ran⟩ := of_bind_ok ran
  obtain ⟨there₂, isRoot, fits, _, _, holds, pending⟩ :=
    (openTable_ends moment₁ virtuals isClass isLength enough own new isArray).of_ok ran₂
  have compiled := openTable_pending moment₁ ran₂
  obtain ⟨_, w₃, ran₃, ran⟩ := of_bind_ok ran
  cases ran
  have stand := defineThunks_stand standard hl moment₁ root _ there₂ pending
    (fun thunk n m inside => openTable_takes moment₁ ran₂ inside) ran₃
  obtain ⟨_, later₃⟩ := (defineThunks_since hl root _ there₂ (moment₁.later there₂.later)
    pending).of_ok ran₃
  refine ⟨entries.map (·.1), later₃.holds holds, fun i n m here compiles => ?_⟩
  have isMethods := fits.methods
  rw [isRoot, virtuals] at isMethods
  cases isMethods
  have inside := (List.getElem?_eq_some_iff.mp here).1
  rw [compiled.length_eq] at inside
  obtain ⟨⟨func, isPending⟩, isEntry⟩ : ∃ entry, entries[i]? = some entry :=
    ⟨_, List.getElem?_eq_getElem inside⟩
  obtain rfl : isPending = true := of_forall₂ compiled here isEntry compiles
  have paired : ((func, true), (n, m)) ∈ entries.zip t'.methods :=
    List.mem_of_getElem? (i := i) (List.getElem?_zip_eq_some.mpr ⟨isEntry, here⟩)
  obtain ⟨c, thunk⟩ := stand func n m paired
  exact ⟨func, c, by simp [isEntry], thunk.earlier there₁⟩

end Compile

/-- The shared table is there, and the functions of methods that are compiled have their bodies. -/
structure MethodTable.Complete (s : Setup) (w : Work) (t : MethodTable) (functions : List FuncId) :
    Prop where
  recorded : w.tables.get? t.root = some t
  holds : t.Holds w functions
  thunks : ∀ (i : Nat) n d, t.methods[i]? = some (n, d) → s.Compiles t.root d →
    ∃ func c, functions[i]? = some func ∧ Thunk s .start w t.root d c func

theorem MethodTable.Complete.later {s : Setup} {w w' : Work} {t : MethodTable}
    {functions : List FuncId} (h : t.Complete s w functions) (later : Later s w w') :
    t.Complete s w' functions := by
  refine ⟨later.table h.recorded, later.holds h.holds, fun i n d here compiles => ?_⟩
  obtain ⟨func, c, holds, thunk⟩ := h.thunks i n d here compiles
  exact ⟨func, c, holds, thunk.later later⟩

theorem Compile.tableOf_complete {s : Setup} {w w' : Work} {l : Lowering}
    (standard : s.runtime = startModule.1) (hl : l.Walks s) (there : Reaches s .start w)
    {root : DeclId} {t : MethodTable} (own : s.resolver.tableSymbol s.program root = none)
    (new : w.tables.get? root = none) (ran : tableOf l root s w = .ok t w') :
    t.root = root ∧ t.Fits s ∧ ∃ functions, t.Complete s w' functions := by
  obtain ⟨_, rfl, fits, _, recorded⟩ := (tableOf_ends hl there.later root).of_ok ran
  obtain ⟨functions, holds, stand⟩ := tableOf_stands standard hl there.later own new ran
  refine ⟨rfl, fits, functions, recorded, holds, fun i n d here compiles => ?_⟩
  obtain ⟨func, c, isFunction, thunk⟩ := stand i n d here compiles
  exact ⟨func, c, isFunction, thunk.earlier there⟩

/-! ## Overriding methods -/

/-- What is recorded for an overriding method was made to stand for it. -/
theorem Work.Moment.override_once {s : Setup} {w : Work} (h : Moment s w) :
    ∀ key func, w.overrides.get? key = some func →
      Once s w fun w₁ => Replacing s w₁ key.1 key.2 func := by
  induction h with
  | same =>
    intro key func known
    cases known
  | @step w w' before last ih =>
    have old : ∀ key func, w.overrides.get? key = some func →
        Once s w' fun w₁ => Replacing s w₁ key.1 key.2 func :=
      fun key func known => (ih key func known).later last.later
    cases last with
    | override made =>
      exact Table.forall_insert old ⟨w, before, (Step.override made).later, made⟩
    | _ => exact old

/-- A body that is asked for is the body of a function. -/
theorem AskedSince.function {s : Setup} {base w : Work} {cls : Option DeclId} {m : DeclId}
    {c : CompiledFunction}
    (h : AskedSince s base w cls m c) : ∃ f, s.program.function m = .ok f := by
  obtain ⟨l, w₀, w₁, _, _, _, ran, _⟩ := h
  obtain ⟨spec, w₂, specialized, _⟩ := Compile.of_bind_ok ran
  obtain ⟨_, _, _, specialized⟩ := Compile.of_bind_ok specialized
  obtain ⟨_, _, _, specialized⟩ := Compile.of_bind_ok specialized
  obtain ⟨_, _, isFormals, _⟩ := Compile.of_bind_ok specialized
  obtain ⟨f, _, asked, _⟩ := Compile.of_bind_ok isFormals
  exact ⟨f, (Compile.of_asks_ok asked).2⟩

/-- What stands for an overriding method takes the object and the arguments of the method. -/
theorem StandsFor.takes {s : Setup} {w : Work} {cls m : DeclId} {n : Name} {func : FuncId}
    {t : MethodTable} {overrides : List (Name × DeclId × Nat)} {q slot : Nat} {f : FunctionDecl}
    (h : StandsFor s w cls n func) (overriding : Overriding s cls t overrides)
    (names : (overrides.map (·.1)).Nodup) (here : overrides[q]? = some (n, m, slot))
    (isFunction : s.program.function m = .ok f) : Compile.Takes s w func m := by
  obtain ⟨w₁, moment₁, later₁, recorded⟩ := h
  obtain ⟨w₀, moment₀, later₀, replacing⟩ := moment₁.override_once (cls, n) func recorded
  obtain @⟨t', overrides', m', slot', q', env, e, layout, name, overriding', here', bound, known,
    defined⟩ := replacing
  obtain ⟨_, rfl⟩ := overriding.unique overriding'
  have same := List.inj_on_of_nodup_map names (List.mem_of_getElem? here)
    (List.mem_of_getElem? here') rfl
  cases same
  rw [Compile.paramCount_of_declEnv moment₀ bound known isFunction] at defined
  exact Compile.Takes.later ⟨f, name, _, isFunction, defined⟩ (later₀.trans later₁)

/-! ## What slots hold -/

/-- The table that an object points at has a value at a position. -/
def Machine.Memory.TableHolds (mem : Memory) (o position : Nat) (v : Value) : Prop :=
  ∃ table rest, mem.heap[o]? = some (.agg (.ptr table :: rest)) ∧
    mem.load (.ptr (table.child position)) = .ok v

/-- What stands in a slot of an object's table, and the body of a method behind it: the function of
the shared table, or one that stands for an overriding method. -/
inductive Serves (s : Setup) (w : Work) (cls : DeclId) (n : Name) (o : Nat) (mem : Memory)
    (m : DeclId) (c : CompiledFunction) (func : FuncId) : Prop where
  | shared {root : DeclId} (thunk : Thunk s .start w root m c func) :
    Serves s w cls n o mem m c func
  | own {t : MethodTable} {overrides : List (Name × DeclId × Nat)} {q slot : Nat} {e : Environment}
    {fields : List Value} {j : Nat} (overriding : Overriding s cls t overrides)
    (names : (overrides.map (·.1)).Nodup) (here : overrides[q]? = some (n, m, slot))
    (standing : StandsFor s w cls n func)
    (held : Held s .start w mem cls m (address o) c e fields j)
    (reaching : Reaching mem o (t.length + q) c fields j) : Serves s w cls n o mem m c func

namespace Serves

variable {s : Setup} {w : Work} {cls m : DeclId} {n : Name} {o : Nat} {mem : Memory}
  {c : CompiledFunction} {func : FuncId}

theorem asked (h : Serves s w cls n o mem m c func) : ∃ cls', AskedSince s .start w cls' m c := by
  cases h with
  | shared thunk => exact ⟨_, thunk.asked⟩
  | own _ _ _ _ held _ => exact ⟨_, held.asked⟩

/-- It takes the object and the arguments of the method. -/
theorem takes (h : Serves s w cls n o mem m c func) (moment : Moment s w) :
    Compile.Takes s w func m := by
  obtain ⟨_, asked⟩ := h.asked
  obtain ⟨f, isFunction⟩ := asked.function
  cases h with
  | shared thunk =>
    obtain ⟨e, name, known, _, defined⟩ := thunk.code
    rw [Compile.paramCount_of_declEnv moment thunk.bound known isFunction] at defined
    exact ⟨f, name, _, isFunction, defined⟩
  | own overriding names here standing _ _ => exact standing.takes overriding names here isFunction

end Serves

/-- The method that calls of a name reach on instances of a class with a table: the first that the
classes below the table declare, else the one of the table. -/
def Source.Program.Dispatches (p : Program) (n : Name) (d : DeclId) (below : List DeclId)
    (m : DeclId) : Prop :=
  p.FirstMethod n below m ∨ (∀ c ∈ below, ¬ p.DeclaresMethod c n) ∧ m = d

/-- The table of an object has, in the slot of each method that is compiled, what serves the method
that calls reach. -/
def Equipped (s : Setup) (w : Work) (t : MethodTable) (cls : DeclId) (below : List DeclId) (o : Nat)
    (mem : Memory) : Prop :=
  ∀ (i : Nat) n d, t.methods[i]? = some (n, d) → s.Compiles t.root d →
    ∃ m c func, s.program.Dispatches n d below m ∧ mem.TableHolds o (t.header + i) (.func func) ∧
      Serves s w cls n o mem m c func

/-- An instance that has its table is equipped. -/
theorem Emit.Installed.equipped {s : Setup} {base w final : Work} {cls : DeclId} {t : MethodTable}
    {overrides : List (Name × DeclId × Nat)} {below : List DeclId} {o : Nat} {first : Value}
    {rest : List Value} {functions : List FuncId} {mem mem' : Memory}
    (h : Installed s base t overrides cls o rest ((t.consts functions).map constValue) mem w mem')
    (there : Reaches s .start base) (object : mem.heap[o]? = some (.agg (first :: rest)))
    (filled : t.Filled mem ((t.consts functions).map constValue))
    (overriding : Overriding s cls t overrides) (lists : t.Lists s.program below overrides)
    (fits : overrides ≠ [] → t.length + overrides.length ≤ 0x80000000) (later : Later s w final)
    (complete : t.Complete s final functions) : Equipped s final t cls below o mem' := by
  intro i n d here compiles
  obtain ⟨func, c, isFunction, thunk⟩ := complete.thunks i n d here compiles
  have entry := t.consts_at isFunction
  have inTable := List.mem_of_getElem? here
  cases h with
  | shared none memory =>
    obtain ⟨cell, isCell, isAgg⟩ := filled.cell
    refine ⟨d, c, func, .inr ⟨fun c member declares => ?_, rfl⟩,
      ⟨(Region.global t.global).root, rest,
      ?_, ?_⟩, .shared thunk⟩
    · obtain ⟨m, found⟩ := lists.replaced inTable member declares
      have listed := lists.listed i n d m here found
      simp [none] at listed
    · rw [memory]
      exact Memory.heap_put (Memory.lt_of_heap object) _
    · rw [memory]
      exact Memory.load_global isCell isAgg entry (by simp)
  | @own k items notEmpty _ _ object' table =>
    by_cases overridden : ∃ c ∈ below, s.program.DeclaresMethod c n
    · obtain ⟨_, member, declares⟩ := overridden
      obtain ⟨m, found⟩ := lists.replaced inTable member declares
      obtain ⟨q, isListed⟩ := List.mem_iff_getElem?.mp (lists.listed i n d m here found)
      have inside := (List.getElem?_eq_some_iff.mp isListed).1
      have small := fits notEmpty
      obtain ⟨func, c, e, fields, j, _, standing, held, holds, closure⟩ :=
        table.replaced small lists.slots_nodup q n m _ inside isListed
      rw [Nat.add_comm] at holds
      have reaching : Reaching mem' o (t.length + q) c fields j :=
        ⟨⟨k, rest, items, object', table.cell, closure⟩, by omega, held.pair, held.cell⟩
      refine ⟨m, c, func, .inl (lists.first inTable found), ⟨_, rest, object',
        Memory.load_heap table.cell holds (by simp)⟩, ?_⟩
      exact .own overriding lists.names isListed (Once.later standing later)
        ((held.earlier there).later later (.refl [] _) (by simp)) reaching
    · have inside : t.header + i < t.length := by
        have := (List.getElem?_eq_some_iff.mp here).1
        have := overriding.fits.enough
        omega
      have holds : items[t.header + i]? = some (.func func) := by
        rw [← entry]
        refine table.others (fits notEmpty) _ inside fun q n' m _ isListed => ?_
        obtain ⟨i', d', here', same, declared⟩ := lists.declared (List.mem_of_getElem? isListed)
        obtain rfl : i = i' := by omega
        cases here.symm.trans here'
        exact overridden declared
      refine ⟨d, c, func, .inr ⟨fun c member declares => overridden ⟨c, member, declares⟩, rfl⟩,
        ⟨_, rest, object', Memory.load_heap table.cell holds (by simp)⟩, .shared thunk⟩

/-- A new instance of a class whose table is complete in the end is equipped, once the code has run
that gives it its table. -/
theorem Emit.installTable_equips {s : Setup} {l : Lowering} {cls : DeclId} {t : MethodTable}
    {chain : List DeclId} {layout : ClassLayout} {obj : ValueId} {w w' final : Work}
    {frame frame' : Frame} {place : BlockId} {functions : List FuncId} {im : Image}
    {reg : Registers}
    {mem : Memory} {o j : Nat} (standard : s.runtime = startModule.1) (hl : l.Walks s)
    (there : Reaches s .start w) (grounded : frame.Grounded w) (isOpen : frame.draft.Open place)
    (isRoot : s.program.tableRoot cls = .ok (some t.root))
    (isChain : s.program.classChain cls = .ok chain) (distinct : (t.methods.map (·.1)).Nodup)
    (laidOut : w.layouts.get? cls = some layout)
    (ran : installTable l obj cls frame s w = .ok ((), frame') w')
    (numbered : frame'.draft.values.size ≤ 0x100000000) (complete : t.Complete s final functions)
    (later : Later s w' final) (isCode : im.code = final.code)
    (room : frame'.draft.values.size ≤ reg.size)
    (new : NewInstance im w frame layout obj reg mem o j)
    (start : mem.globals[t.global.raw]? = (Memory.ofModule im.code).globals[t.global.raw]?) :
    ∃ code mem', frame.draft.Appends place code frame'.draft ∧
      (∀ (invoke : Invoke) (st : State), st.memory = mem → code.length ≤ st.fuel →
        ∃ reg', execInsts im.code.types invoke reg code st =
          .ok reg' { st with memory := mem', fuel := st.fuel - code.length }) ∧
      mem.Keeps [o] mem' ∧ Equipped s final t cls (chain.takeWhile (· ≠ t.root)) o mem' := by
  obtain ⟨t', overrides, w₁, there₁, sameRoot, _, recorded, overriding, ran⟩ :=
    installTable_places hl there.later grounded isRoot ran
  have moment : Moment s w := there.later
  have moment₁ := moment.later there₁.later
  have later₂ : Later s w₁ w' :=
    (((placeTable_walks hl overriding obj).ends moment₁
      (grounded.later there₁.later)).of_ok ran).1.later
  -- a class has one table
  obtain rfl : t = t' := by
    have recorded' := (later₂.trans later).table recorded
    exact Option.some.inj (complete.recorded.symm.trans recorded')
  have lists : t.Lists s.program (chain.takeWhile (· ≠ t.root)) overrides := by
    obtain ⟨chain', isChain', listed⟩ := overriding.listed
    obtain rfl : chain = chain' := Except.ok.inj (isChain.symm.trans isChain')
    exact MethodTable.overriding_lists distinct listed
  have fits := placeTable_fits overriding.fits lists.length ran numbered
  obtain ⟨-, inTable⟩ := overriding.inTable
  have grows (w₀ : Work) (before : Later s w₀ w') : w₀.code.types.Grows im.code.types :=
    isCode ▸ (before.trans later).extends.code.types
  have filled := complete.holds.filled overriding.fits (isCode ▸ start)
  have object := new.allocated moment laidOut isRoot (grows w (there₁.later.trans later₂))
  let x : Stage := ⟨w₁, frame, reg.read, mem, place, isOpen⟩
  obtain ⟨c, isCell, holds⟩ := filled.cell
  obtain ⟨x', rfl, rfl, goes, installed⟩ := placeTable_does (x := x) standard hl moment₁ overriding
    inTable (new.calledWith there₁.later isOpen) new.apart ⟨new.inside, new.object⟩ object isCell
      holds filled.length
    filled.written () frame' w' ran
  obtain ⟨code, appends, runs⟩ := goes.point.code
  refine ⟨code, x'.memory, appends, ?_, installed.keeps, ?_⟩
  · intro invoke st memory fuel
    obtain ⟨reg', _, _, ran'⟩ := runs im.code.types (grows _ .same) invoke reg st rfl
      memory room fuel
    exact ⟨reg', ran'⟩
  · exact installed.equipped (there.trans there₁) object filled overriding lists fits later complete

/-! ## Calls through slots -/

namespace Emit

variable {s : Setup} {l : Lowering} {object result : Operand} {static m : DeclId} {slot : Nat}
  {args : List Operand} {w w' : Work} {frame frame' : Frame}

/-- Calls a slot with the object and with arguments for a body. -/
def callThrough (l : Lowering) (object : Operand) (cls : DeclId) (f : FunctionDecl)
    (c : CompiledFunction) (slot : Nat) (args : List Operand) : Emit Operand := do
  let this ← boxed object
  let values ← f.params.zipIdx.mapM fun (_, i) => l.argument args[i]? (c.params[i]?.getD .any)
  return .boxed (← callSlot cls this slot values) c.ret

theorem callThrough_walks (hl : l.Walks s) (object : Operand) (cls : DeclId) (f : FunctionDecl)
    (c : CompiledFunction) (slot : Nat) (args : List Operand) :
    Walks s (callThrough l object cls f c slot args) :=
  .bind (boxed_walks object) fun _ => .bind (.mapM (fun _ => hl.argument _ _) _) fun _ =>
    .bind (callSlot_walks _ _ _ _) fun _ => .pure _

/-- A call of a method that is compiled asks for the body of the method for the static class. -/
theorem of_virtualCall_ok (compiles : s.Compiles static m)
    (ran : virtualCall l object static m slot args frame s w = .ok (result, frame') w') :
    ∃ f c w₁, s.program.function m = .ok f ∧ l.body (.function m) (some static) [] s w = .ok c w₁ ∧
      callThrough l object static f c slot args frame s w₁ = .ok (result, frame') w' := by
  obtain ⟨f, _, _, asked, ran⟩ := of_bind_ok ran
  obtain ⟨rfl, rfl, isFunction⟩ := of_asks_ok asked
  obtain ⟨found, _, w₁, lifted, ran⟩ := of_bind_ok ran
  obtain ⟨rfl, compiled⟩ := of_lift_ok lifted
  obtain ⟨_, _, resolved, compiled⟩ := Compile.of_bind_ok compiled
  cases resolved
  rw [if_neg (by simpa [Setup.Compiles] using compiles)] at compiled
  obtain ⟨c, _, compiled, isSome⟩ := Compile.of_bind_ok compiled
  cases isSome
  exact ⟨f, c, w₁, isFunction, compiled, by simpa [callThrough] using ran⟩

theorem of_mapM_ok {α β : Type} {k : α → Emit β} {as : List α} {bs : List β}
    (ran : as.mapM k frame s w = .ok (bs, frame') w') :
    List.Forall₂ (fun a b => ∃ f₁ w₁ f₂ w₂, k a f₁ s w₁ = .ok (b, f₂) w₂) as bs := by
  induction as generalizing bs frame w with
  | nil =>
    cases ran
    exact .nil
  | cons a as ih =>
    rw [List.mapM_cons] at ran
    obtain ⟨b, f₁, w₁, ran₁, ran⟩ := of_bind_ok ran
    obtain ⟨bs', f₂, w₂, ran₂, ran⟩ := of_bind_ok ran
    cases ran
    exact .cons ⟨frame, w, f₁, w₁, ran₁⟩ (ih ran₂)

/-- What a call through a slot passes: the object, and arguments that are converted to what the
parameters of a body are known to be. What comes back is taken for the result of the body. -/
structure Passes (s : Setup) (l : Lowering) (static : DeclId) (slot : Nat) (args : List Operand)
    (c : CompiledFunction) (values : List ValueId) (result : Operand) (frame' : Frame) (w' : Work) :
    Prop where
  arguments : ∀ (i : Nat) v, values[i]? = some v → ∃ f₁ w₁ f₂ w₂,
    l.argument args[i]? (c.params[i]?.getD .any) f₁ s w₁ = .ok (v, f₂) w₂
  called : ∃ this out f₁ w₁, callSlot static this slot values f₁ s w₁ = .ok (out, frame') w' ∧
    result = .boxed out c.ret

theorem callThrough_passes {f : FunctionDecl} {c : CompiledFunction}
    (ran : callThrough l object static f c slot args frame s w = .ok (result, frame') w') :
    ∃ values, values.length = f.params.length ∧
      Passes s l static slot args c values result frame' w' := by
  obtain ⟨this, _, _, _, ran⟩ := of_bind_ok ran
  obtain ⟨values, f₁, w₁, converted, ran⟩ := of_bind_ok ran
  obtain ⟨out, _, _, called, ran⟩ := of_bind_ok ran
  cases ran
  have each := of_mapM_ok converted
  have length : values.length = f.params.length := by simpa using each.length_eq.symm
  refine ⟨values, length, fun i v here => ?_, this, out, f₁, w₁, called, rfl⟩
  have inside := (List.getElem?_eq_some_iff.mp here).1
  have isParam : f.params.zipIdx[i]? = some (f.params.get ⟨i, length ▸ inside⟩, i) := by
    simp [List.getElem?_zipIdx]
  exact Compile.of_forall₂ each isParam here

end Emit

/-- Virtual calls and what they reach. A shared table is made, the code that gives a new instance of
a class its table is compiled, and so is a call of a method through one of the slots, for a receiver
of any class, in any order; the table is not supplied from outside, its virtual methods have
different names, and the methods in question are compiled. The call passes the object and as many
arguments as its method has parameters. What stands in the slot of the instance takes the object and
the arguments of the method that the classes of the instance declare first, going up. So it takes
what the call passes if and only if both methods have as many parameters; a parameter that both
declare with the same type is known to be the same in the body behind the slot as at the call, and
so is the result. -/
theorem virtual_slots_fit (p : Program) (r : Resolver) (config : Config)
    (depth depth' depth'' : Nat)
    {t : MethodTable} {root cls static m d : DeclId} {n : Name} {i : Nat} {chain : List DeclId}
    {layout : ClassLayout} {obj : ValueId} {frame frame' called called' : Frame} {place : BlockId}
    {object result : Operand} {args : List Operand} {wt wt' wi wi' wc wc' : Work}
    (begun : Reaches (.of p r config) .start wt) (notYet : wt.tables.get? root = none)
    (own : r.tableSymbol p root = none)
    (tabled : Compile.tableOf (.ofDepth depth) root (.of p r config) wt = .ok t wt')
    (distinct : (t.methods.map (·.1)).Nodup) (here : t.methods[i]? = some (n, d))
    (compiled : Setup.Compiles (.of p r config) root d)
    (reached : Reaches (.of p r config) .start wi) (grounded : frame.Grounded wi)
    (isOpen : frame.draft.Open place) (isRoot : p.tableRoot cls = .ok (some root))
    (isChain : p.classChain cls = .ok chain) (laidOut : wi.layouts.get? cls = some layout)
    (installed : Emit.installTable (.ofDepth depth') obj cls frame (.of p r config) wi =
      .ok ((), frame') wi')
    (numbered : frame'.draft.values.size ≤ 0x100000000)
    (arrived : Reaches (.of p r config) .start wc) (standing : called.Grounded wc)
    (compiled' : Setup.Compiles (.of p r config) static m)
    (call : Emit.virtualCall (.ofDepth depth'') object static m (t.header + i) args called
      (.of p r config) wc = .ok (result, called') wc') :
    ∃ f c values, p.function m = .ok f ∧ AskedSince (.of p r config) .start wc' (some static) m c ∧
      values.length = f.params.length ∧ Emit.Passes (.of p r config) (.ofDepth depth'') static
        (t.header + i) args c values result called' wc' ∧
      ∀ (final : Work) (im : Image) (reg : Registers) (mem : Memory) (o j : Nat),
        Later (.of p r config) wt' final → Later (.of p r config) wi' final →
        Later (.of p r config) wc' final → im.code = final.code →
        frame'.draft.values.size ≤ reg.size → NewInstance im wi frame layout obj reg mem o j →
        mem.globals[t.global.raw]? = (Memory.ofModule im.code).globals[t.global.raw]? →
        ∃ code mem', frame.draft.Appends place code frame'.draft ∧
          (∀ (invoke : Invoke) (st : State), st.memory = mem → code.length ≤ st.fuel →
            ∃ reg', execInsts im.code.types invoke reg code st =
              .ok reg' { st with memory := mem', fuel := st.fuel - code.length }) ∧
          ∃ m' f' c' func fn, p.Dispatches n d (chain.takeWhile (· ≠ root)) m' ∧
            p.function m' = .ok f' ∧ mem'.TableHolds o (t.header + i) (.func func) ∧
            Serves (.of p r config) final cls n o mem' m' c' func ∧
              im.code.function? func = some fn ∧
            fn.params.length = f'.params.length + 1 ∧
            (fn.params.length = values.length + 1 ↔ f'.params.length = f.params.length) ∧
            (∀ k ty, p.Closed ty → p.ParamType m k ty → p.ParamType m' k ty →
              c'.params[k]? = c.params[k]?) ∧
            ∀ ty, p.Closed ty → p.ResultType m ty → p.ResultType m' ty → c'.ret = c.ret := by
  have walks (depth : Nat) := Lowering.ofDepth_walks (s := .of p r config) depth
  obtain ⟨rfl, -, functions, complete⟩ :=
    Compile.tableOf_complete rfl (walks depth) begun own notYet tabled
  obtain ⟨f, c, w₁, isFunction, asked, through⟩ := Emit.of_virtualCall_ok compiled' call
  obtain ⟨values, length, passes⟩ := Emit.callThrough_passes through
  have moment : Moment (.of p r config) wc := arrived.later
  have there₁ := ((walks depth'').body moment (.function m) (some static) []).of_ok asked
  have there₂ := ((Emit.callThrough_walks (walks depth'') object static f c _ args).ends
    (moment.later there₁.1.later) (standing.later there₁.1.later)).of_ok through
  have asks : AskedSince (.of p r config) .start wc' (some static) m c :=
    ⟨_, wc, w₁, walks depth'', moment, arrived, asked, there₂.1.later⟩
  refine ⟨f, c, values, isFunction, asks, length, passes, ?_⟩
  intro final im reg mem o j later later' later'' isCode room new start
  obtain ⟨code, mem', appends, runs, -, equipped⟩ := Emit.installTable_equips rfl (walks depth')
    reached grounded isOpen isRoot isChain distinct laidOut installed numbered
      (complete.later later)
    later' isCode room new start
  obtain ⟨m', c', func, reaches, holds, serves⟩ := equipped i n d here compiled
  have momentf : Moment (.of p r config) final :=
    (moment.later (there₁.1.trans there₂.1).later).later later''
  obtain ⟨f', name, body, isFunction', known⟩ := serves.takes momentf
  obtain ⟨cls', asks'⟩ := serves.asked
  have asksf := asks.later later''
  refine ⟨code, mem', appends, runs, m', f', c', func, _, reaches, isFunction', holds, serves,
    isCode ▸ known, by simp, ?_, ?_, ?_⟩
  · simp [length]
  · exact fun k ty closed isParam isParam' => asks'.params_agree asksf isParam' isParam closed
  · exact fun ty closed isResult isResult' => asks'.results_agree asksf isResult' isResult closed

/-! ## States with an instance -/

namespace Source.Program

variable (p : Program) (count : Nat) (root cls : DeclId)

/-- The state once the first statements are compiled. -/
def declaredWork : Work :=
  Compile.endOf ((Lowering.ofDepth 20).block (p.entry.take count) topFrame)
    (.of p .ambient {}) .start

/-- The state once the shared table of a class is made after them. -/
def tableWork : Work :=
  Compile.endOf (Compile.tableOf (.ofDepth 20) root) (.of p .ambient {}) (p.declaredWork count)

/-- The state once a class is laid out. -/
def laidOutWork : Work :=
  Compile.endOf (Compile.layoutOf cls) (.of p .ambient {}) (p.tableWork count root)

/-- The state once an instance of the class, given to a body, has its table. -/
def installedWork : Work :=
  Compile.endOf (Emit.installTable (.ofDepth 20) ⟨0⟩ cls givenObject) (.of p .ambient {})
    (p.laidOutWork count root cls)

theorem declaredWork_reached : Reaches (.of p .ambient {}) .start (p.declaredWork count) :=
  Moment.reaches_top .same 20 _

theorem laidOutWork_since :
    Reaches (.of p .ambient {}) .start (p.tableWork count root) ∧
    Reaches (.of p .ambient {}) (p.tableWork count root) (p.laidOutWork count root cls) := by
  have begun := p.declaredWork_reached count
  have there := begun.trans
    ((Compile.tableOf_walks (Lowering.ofDepth_walks 20) root).ends begun.later).reaches
  exact ⟨there, ((Compile.layoutOf_walks cls).ends there.later).reaches⟩

theorem laidOutWork_reached : Reaches (.of p .ambient {}) .start (p.laidOutWork count root cls) :=
  (p.laidOutWork_since count root cls).1.trans (p.laidOutWork_since count root cls).2

theorem installedWork_since : Reaches (.of p .ambient {}) (p.laidOutWork count root cls)
    (p.installedWork count root cls) :=
  ((Emit.installTable_walks (Lowering.ofDepth_walks 20) ⟨0⟩ cls).ends
    (p.laidOutWork_reached count root cls).later (by rintro _ ⟨⟩)).reaches

theorem installedWork_reached :
    Reaches (.of p .ambient {}) .start (p.installedWork count root cls) :=
  (p.laidOutWork_reached count root cls).trans (p.installedWork_since count root cls)

end Source.Program

/-- The registers of a body that is given the first allocation. -/
def givenRegisters (size : Nat) : Registers :=
  (Array.replicate size .undef).setIfInBounds 0 (address 0)

/-- The first allocation of a memory is a new instance. -/
theorem newInstance_given {im : Image} (w : Work) (layout : ClassLayout) {size : Nat}
    (room : 0 < size) : NewInstance im w givenObject layout ⟨0⟩ (givenRegisters size)
      ((Memory.ofModule im.code).push (zeroValue im.code.types layout.record)) 0 0 :=
  ⟨by decide, by simp [givenRegisters, Registers.read, room], Memory.heap_push _ _, by rintro _ ⟨⟩⟩

/-- A class with a virtual method of two parameters, a class below it that overrides the method
with the same parameters, and one that does with fewer. The method is called on an instance of
the last. -/
@[irreducible] def twoOverrides : Program := (Id.run <| StateT.run (do
  let base ← Construction.classDecl "Base" none { table := true }
  let same ← Construction.classDecl "Same" (some base) .none
  let fewer ← Construction.classDecl "Fewer" (some base) .none
  let params (names : List String) : Building (List DeclId) :=
    names.mapM (Construction.param · .boolean)
  discard <| Construction.method base "m" (← params ["a", "b"]) (some .void) [] { virtual := true }
  discard <| Construction.method same "m" (← params ["a", "b"]) (some .void) [] { override := true }
  discard <| Construction.method fewer "m" (← params ["a"]) (some .void) [] { override := true }
  Construction.pushEntry (← Construction.stmt (.classDecl base))
  Construction.pushEntry (← Construction.stmt (.classDecl same))
  Construction.pushEntry (← Construction.stmt (.classDecl fewer))
  let type ← Construction.instanceType base
  let (r, _) ← Construction.bind "r" (some type) (some (← Construction.expr (.construct fewer [])))
  Construction.pushEntry r
  let call ← Construction.methodCall (← Construction.ident "r") "m"
    [← Construction.expr (.bool true), ← Construction.expr (.bool false)]
  Construction.pushEntry (← Construction.stmt (.expr call)) : Building Unit) {}).2.program

/-- A body that is given an object and two arguments. -/
def givenArguments : Frame := { givenObject with draft := Draft.start ⟨0⟩ [.ptr, .ptr, .ptr] }

/-- The call of the method for the class above. -/
def twoOverridesCall : Emit Operand :=
  Emit.virtualCall (.ofDepth 20) (.boxed ⟨0⟩ (.instanceOf ⟨0⟩)) ⟨0⟩ ⟨5⟩ 4
    [.boxed ⟨1⟩ .boolean, .boxed ⟨2⟩ .boolean]

/-- The state once the call is compiled. -/
def twoOverridesCalled : Work :=
  Compile.endOf (twoOverridesCall givenArguments) (.of twoOverrides .ambient {})
    (twoOverrides.installedWork 3 ⟨0⟩ ⟨1⟩)

/-- With the same parameters, what stands in the slot takes what the call passes, and knows the
second parameter and the result to be what the call takes them for. -/
theorem virtual_slots_fit_twoOverrides : ∃ frame' called' result,
    Emit.installTable (.ofDepth 20) ⟨0⟩ ⟨1⟩ givenObject (.of twoOverrides .ambient {})
      (twoOverrides.laidOutWork 3 ⟨0⟩ ⟨1⟩) = .ok ((), frame')
      (twoOverrides.installedWork 3 ⟨0⟩ ⟨1⟩) ∧
    twoOverridesCall givenArguments (.of twoOverrides .ambient {})
      (twoOverrides.installedWork 3 ⟨0⟩ ⟨1⟩) = .ok (result, called') twoOverridesCalled ∧
    ∃ c values, Emit.Passes (.of twoOverrides .ambient {}) (.ofDepth 20) ⟨0⟩ 4
      [.boxed ⟨1⟩ .boolean, .boxed ⟨2⟩ .boolean] c values result called' twoOverridesCalled ∧
      ∃ mem' c' func fn, mem'.TableHolds 0 4 (.func func) ∧
        Serves (.of twoOverrides .ambient {}) twoOverridesCalled ⟨1⟩ ⟨6⟩ 0 mem' ⟨8⟩ c' func ∧
        twoOverridesCalled.code.function? func = some fn ∧ fn.params.length = values.length + 1 ∧
        c'.params[1]? = c.params[1]? ∧ c'.ret = c.ret := by
  -- the table, the layout, the instance and the call, one after the other
  have there₂ := (twoOverrides.laidOutWork_since 3 ⟨0⟩ ⟨1⟩).2
  have there₃ := twoOverrides.installedWork_since 3 ⟨0⟩ ⟨1⟩
  have reached := twoOverrides.installedWork_reached 3 ⟨0⟩ ⟨1⟩
  have there₄ : Reaches (.of twoOverrides .ambient {}) (twoOverrides.installedWork 3 ⟨0⟩ ⟨1⟩)
      twoOverridesCalled :=
    ((Emit.virtualCall_walks (Lowering.ofDepth_walks 20) _ _ _ _ _).ends reached.later
      (by rintro _ ⟨⟩)).reaches
  obtain ⟨t, tabled, isTable⟩ := Compile.of_gives
    (show Compile.gives (Compile.tableOf (.ofDepth 20) ⟨0⟩)
    (.of twoOverrides .ambient {}) (twoOverrides.declaredWork 3)
    (fun t => decide (t.methods = [(⟨6⟩, ⟨5⟩)] ∧ t.header = 4)) by decide +kernel)
  obtain ⟨methods, header⟩ := of_decide_eq_true isTable
  obtain ⟨⟨_, frame'⟩, installed, numbered⟩ := Compile.of_gives (show Compile.gives
    (Emit.installTable (.ofDepth 20) ⟨0⟩ ⟨1⟩ givenObject) (.of twoOverrides .ambient {})
    (twoOverrides.laidOutWork 3 ⟨0⟩ ⟨1⟩) (fun r => decide (0 < r.2.draft.values.size ∧
      r.2.draft.values.size ≤ 0x100000000)) by decide +kernel)
  obtain ⟨room, numbered⟩ := of_decide_eq_true numbered
  obtain ⟨⟨result, called'⟩, call, _⟩ := Compile.of_gives (show Compile.gives
    (twoOverridesCall givenArguments) (.of twoOverrides .ambient {})
    (twoOverrides.installedWork 3 ⟨0⟩ ⟨1⟩) (fun _ => true) by decide +kernel)
  have laidOut : ((twoOverrides.laidOutWork 3 ⟨0⟩ ⟨1⟩).layouts.get? ⟨1⟩).isSome := by decide +kernel
  obtain ⟨layout, isLayout⟩ := Option.isSome_iff_exists.mp laidOut
  have here : t.methods[0]? = some (⟨6⟩, ⟨5⟩) := by rw [methods]; rfl
  have distinct : (t.methods.map (·.1)).Nodup := by simp [methods]
  have notYet : (twoOverrides.declaredWork 3).tables.get? ⟨0⟩ = none := by decide +kernel
  have isRoot : twoOverrides.tableRoot ⟨1⟩ = .ok (some ⟨0⟩) := by decide +kernel
  have isChain : twoOverrides.classChain ⟨1⟩ = .ok [⟨1⟩, ⟨0⟩] := by decide +kernel
  have compiled : Setup.Compiles (.of twoOverrides .ambient {}) ⟨0⟩ ⟨5⟩ := by decide +kernel
  have isOpen : givenObject.draft.Open ⟨0⟩ := ⟨rfl, _, rfl, rfl⟩
  have call' : Emit.virtualCall (.ofDepth 20) (.boxed ⟨0⟩ (.instanceOf ⟨0⟩)) ⟨0⟩ ⟨5⟩ (t.header + 0)
      [.boxed ⟨1⟩ .boolean, .boxed ⟨2⟩ .boolean] givenArguments (.of twoOverrides .ambient {})
      (twoOverrides.installedWork 3 ⟨0⟩ ⟨1⟩) = .ok (result, called') twoOverridesCalled := by
    rw [header]
    exact call
  obtain ⟨f, c, values, isFunction, _, length, passes, fits⟩ :=
    virtual_slots_fit twoOverrides .ambient {}
    20 20 20 (twoOverrides.declaredWork_reached 3) notYet rfl tabled distinct here compiled
    (twoOverrides.laidOutWork_reached 3 ⟨0⟩ ⟨1⟩) (by rintro _ ⟨⟩) isOpen isRoot isChain
      isLayout installed
    numbered reached (by rintro _ ⟨⟩) compiled call'
  obtain ⟨_, mem', _, _, m', f', c', func, fn, dispatches, isFunction', holds, serves,
    known, -, arity,
    sameParams, sameResult⟩ := fits twoOverridesCalled ⟨twoOverridesCalled.code, #[]⟩
      (givenRegisters frame'.draft.values.size) _ 0 0 ((there₂.trans there₃).trans there₄).later
      there₄.later .same rfl (by simp [givenRegisters]) (newInstance_given _ layout room) rfl
  have isFirst : twoOverrides.FirstMethod ⟨6⟩ [⟨1⟩] ⟨8⟩ := by
    have found : twoOverrides.findFunction ⟨6⟩ [.method] [⟨1⟩] = .ok (some ⟨8⟩) := by decide +kernel
    exact Program.findFunction_first _ found
  obtain rfl : m' = ⟨8⟩ := by
    rcases dispatches with first | ⟨none, -⟩
    · exact first.unique isFirst
    · obtain ⟨c, member, declares⟩ := isFirst.declares
      exact absurd declares (none c member)
  have plain : twoOverrides.Closed .boolean ∧ twoOverrides.Closed .void := by
    have isBoolean : twoOverrides.types.get .boolean = .boolean := by decide +kernel
    have isVoid : twoOverrides.types.get .void = .void := by decide +kernel
    constructor <;> apply Program.closed_of_plain <;> simp [isBoolean, isVoid]
  rw [header] at passes holds
  refine ⟨frame', called', result, installed, call, c, values, passes, mem', c', func,
    fn, holds, serves,
    known, arity.mpr ?_, ?_, ?_⟩
  · have counts : (twoOverrides.function ⟨8⟩).toOption.map (·.params.length) =
        (twoOverrides.function ⟨5⟩).toOption.map (·.params.length) := by decide +kernel
    simpa [isFunction, isFunction', Except.toOption] using counts
  · exact sameParams 1 .boolean plain.1 (by decide +kernel) (by decide +kernel)
  · exact sameResult .void plain.2 (by decide +kernel) (by decide +kernel)

/-- The arity that a call was refused for, and the number of its arguments. -/
def refused? : EStateM.Result Trap State Value → Option (Nat × Nat)
  | .error (.arity _ expected found) _ => some (expected, found)
  | _ => none

theorem of_refused? {result : EStateM.Result Trap State Value} {expected found : Nat}
    (h : refused? result = some (expected, found)) :
    ∃ name st, result = .error (.arity name expected found) st := by
  unfold refused? at h
  split at h
  · cases h
    exact ⟨_, _, rfl⟩
  · cases h

/-- With fewer parameters, what stands in the slot refuses what the call passes: the program
compiles, and its run ends with a call of a function of two parameters with three arguments. -/
theorem shorter_override_refuses : ∃ unit name machine,
    compileUnitWithin 20 twoOverrides .ambient {} = .ok unit ∧
    (Machine.ofModule unit.code).callFunction unit.entry [] =
    (.error (.arity name 2 3), machine) := by
  have ran : ((compileUnitWithin 20 twoOverrides .ambient {}).toOption.bind fun unit =>
      refused? (invokeStraight ⟨unit.code, #[]⟩ maxNesting (.function unit.entry) []
        (Machine.ofModule unit.code).state)) = some (2, 3) := by
    decide +kernel
  obtain ⟨unit, compiled, ran⟩ := Option.bind_eq_some_iff.mp ran
  obtain ⟨name, st, ran⟩ := of_refused? ran
  have trapped := invoke_of_straight ran (by simp)
  refine ⟨unit, name, ⟨⟨unit.code, #[]⟩, st⟩, toOption_eq_some_iff.mp compiled, ?_⟩
  simp only [Machine.callFunction, Machine.step, Machine.ofModule] at trapped ⊢
  rw [trapped]

end ShapeCompiler
