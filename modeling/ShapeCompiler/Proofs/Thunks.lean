import ShapeCompiler.Proofs.Environments
import ShapeCompiler.Proofs.Operands

/-!
# Method tables are filled with well-formed functions

* `writeBody_spec`: a body that computes from its parameters and returns;
* `tableOf_sound`, `trampoline_sound`: the functions that stand in method tables have such bodies;
* `installTable_sound`, `virtualCall_sound`.
-/

namespace ShapeCompiler

open Source Code Work

/-! ## Straight bodies -/

namespace Code.Writing

variable {α : Type} {U : ValueId → Prop} {C : FuncId → Nat → Prop}

/-- Where the values that are used are there, the steps leave the block and open none; they add only
such calls. -/
def Leaves (uses : ValueId → Prop) (m : Writing Unit) (calls : FuncId → Nat → Prop) : Prop :=
  ∀ (d : Draft) (g : Sketch), d.Fits g → d.IsOpen → (∀ v, uses v → d.Has g v) →
    ∃ g', g'.params = g.params ∧ g'.pending = g.pending ∧ (m.run d).2.Fits g' ∧
      (m.run d).2.isClosed = true ∧ ∀ f n, (m.run d).2.Calls f n → d.Calls f n ∨ calls f n

theorem Sound.leaves {m : Writing α} {k : α → Writing Unit} {gives : α → List ValueId}
    (first : Sound U m gives C) (rest : ∀ a, Leaves (fun v => v ∈ gives a ∨ U v) (k a) C) :
    Leaves U (m >>= k) C := by
  intro d g fits isOpen uses
  obtain ⟨g', goes, given, calls⟩ := first d g fits isOpen uses
  obtain ⟨g'', params, pending, fits', closed, calls'⟩ := rest _ _ g' goes.fits goes.isOpen
    (goes.uses given uses)
  refine ⟨g'', params.trans goes.grown.params, pending.trans goes.pending, fits', closed, ?_⟩
  intro f n call
  rcases calls' f n call with earlier | new
  · exact calls f n earlier
  · exact .inr new

theorem Leaves.ret {result : Option ValueId} (h : ∀ v ∈ result.toList, U v) :
    Leaves U (Draft.ret result) C := by
  intro d g fits isOpen uses
  obtain ⟨b, here⟩ := isOpen
  obtain ⟨k, there, _⟩ := here.block
  refine ⟨g, rfl, rfl, ?_⟩
  rw [Draft.ret, here.close]
  refine ⟨?_, ?_, fun f n calls => .inl (CallsIn.of_exit calls)⟩
  · exact fits.close here _ (fun v used => uses v (h v used)) (by simp [Exit.targets])
  · simp [Draft.isClosed, here.here, there, Array.getElem?_modify]

end Code.Writing

/-- A body that uses its parameters only and returns. -/
theorem writeBody_spec {steps : Writing Unit} {calls : FuncId → Nat → Prop} (func : FuncId)
    (arity : Nat) (leaves : steps.Leaves (fun v => v.raw < arity) calls) :
    (writeBody func arity steps).WellFormed arity ∧
      ∀ f n, (writeBody func arity steps).Calls f n → calls f n := by
  have fits := Draft.Fits.start func (List.replicate arity .ptr)
  have isOpen := Draft.isOpen_start func (List.replicate arity .ptr)
  rw [List.length_replicate] at fits
  obtain ⟨g, params, pending, fits', closed, called⟩ := leaves _ _ fits isOpen fun v isParam =>
    ⟨⟨0⟩, ⟨rfl, _, rfl, rfl⟩, .inl isParam⟩
  have formed := fits'.wellFormed (by simp [pending]) closed
  rw [params] at formed
  exact ⟨formed, fun f n call => (called f n call).resolve_left (Draft.not_calls_start _ _ f n)⟩

/-- The call of closures calls no function directly. -/
theorem closureCallBody_spec (closure bodySig : TyId) (call : FuncId) :
    (closureCallBody closure bodySig call).WellFormed 1 ∧
      ∀ f n, ¬ (closureCallBody closure bodySig call).Calls f n := by
  refine writeBody_spec call 1 ?_
  apply (Writing.Sound.fieldAddr _ _ _ (by simp [Draft.param])).leaves
  intro codeAddr
  apply (Writing.Sound.load _ _ (by simp)).leaves
  intro code
  apply (Writing.Sound.fieldAddr _ _ _ (by simp [Draft.param])).leaves
  intro envAddr
  apply (Writing.Sound.load _ _ (by simp)).leaves
  intro env
  apply (Writing.Sound.callIndirect _ _ _ (by simp) (by simp)).leaves
  exact fun result => .ret fun v isResult => .inl isResult

theorem passArguments_sound (e : Environment) {env : ValueId} {U : ValueId → Prop}
    {C : FuncId → Nat → Prop}
    (params : ∀ i ≤ e.paramCount, U (Draft.param i)) (h : U env) :
    Writing.Sound U (passArguments e env) (fun _ => []) C := by
  have arguments : Writing.Sound U ((List.range e.paramCount).forM fun i => do
      let cell ← Draft.alloc .ptr "arg"
      Draft.store (Draft.param (i + 1)) cell
      let slot ← Draft.fieldAddr e.record env i "arg.p"
      Draft.store cell slot) (fun _ => []) C := by
    apply Writing.Sound.forM
    intro i inside
    have isParam := params (i + 1) (List.mem_range.mp inside)
    apply (Writing.Sound.alloc _ _).bind
    intro cell
    apply (Writing.Sound.store (.inr isParam) (by simp)).bind
    intro _
    apply (Writing.Sound.fieldAddr _ _ _ (by simp [h])).bind
    intro slot
    exact .store (by simp) (by simp)
  apply arguments.bind
  intro _
  split
  · apply (Writing.Sound.fieldAddr _ _ _ (by simp [h])).bind
    intro p
    exact .store (by simp [params 0 (Nat.zero_le _)]) (by simp)
  · exact .pure (by simp)

/-- It calls the method with its environment. -/
theorem thunkBody_spec (thunk : FuncId) (e : Environment) (func : FuncId) :
    (writeBody thunk (e.paramCount + 1) (thunkSteps e func)).WellFormed (e.paramCount + 1) ∧
      ∀ f n, (writeBody thunk (e.paramCount + 1) (thunkSteps e func)).Calls f n →
        f = func ∧ n = 1 := by
  refine writeBody_spec thunk _ ?_
  apply (Writing.Sound.alloc _ _).leaves
  intro env
  apply (passArguments_sound e (fun i inside => .inr (Nat.lt_succ_of_le inside)) (by simp)).leaves
  intro _
  apply (Writing.Sound.call _ _ _ (by simp) ⟨rfl, rfl⟩).leaves
  exact fun result => .ret fun v isResult => .inl isResult

/-- It calls the closure. -/
theorem trampolineBody_spec (func : FuncId) (rt : Runtime) (layout : ClassLayout)
    (e : Environment) (closureSlot : Int64) :
    (writeBody func (e.paramCount + 1)
      (trampolineSteps rt layout e closureSlot)).WellFormed (e.paramCount + 1) ∧
    ∀ f n, (writeBody func (e.paramCount + 1)
      (trampolineSteps rt layout e closureSlot)).Calls f n → f = rt.call ∧ n = 1 := by
  refine writeBody_spec func _ ?_
  apply (Writing.Sound.fieldAddr _ _ _ (Nat.succ_pos _)).leaves
  intro tableAddr
  apply (Writing.Sound.load _ _ (by simp)).leaves
  intro table
  apply (Writing.Sound.plain _).leaves
  intro index
  apply (Writing.Sound.elemAddr _ _ (by simp) (by simp)).leaves
  intro closureAddr
  apply (Writing.Sound.load _ _ (by simp)).leaves
  intro closure
  apply (Writing.Sound.fieldAddr _ _ _ (by simp)).leaves
  intro envAddr
  apply (Writing.Sound.load _ _ (by simp)).leaves
  intro env
  have params : ∀ i ≤ e.paramCount, (Draft.param i).raw < e.paramCount + 1 :=
    fun i inside => Nat.lt_succ_of_le inside
  apply (passArguments_sound e (fun i inside => by simp [params i inside]) (by simp)).leaves
  intro _
  apply (Writing.Sound.call _ _ _ (by simp) ⟨rfl, rfl⟩).leaves
  exact fun result => .ret fun v isResult => .inl isResult

/-! ## Shared tables -/

namespace Compile

variable {s : Setup} {w w' : Work} {l : Lowering}

theorem Since.of_ok {α : Type} {base : Work} {m : Compile α} {Q : α → Work → Prop} {a : α}
    (h : Since s base w m Q) (ran : m s w = .ok a w') : Reaches s base w' ∧ Q a w' := by
  rw [Since, ran] at h
  exact h

theorem of_env_ok {id : EnvId} {e : Environment} (ran : env id s w = .ok e w') :
    w.registry.env? id = some e ∧ w = w' := by
  rw [env_apply] at ran
  cases known : w.registry.env? id with
  | none =>
    rw [known] at ran
    cases ran
  | some e' =>
    rw [known] at ran
    cases ran
    exact ⟨rfl, rfl⟩

/-- The function takes the object and the arguments of the method, and gives a pointer. -/
def Takes (s : Setup) (w : Work) (f : FuncId) (m : DeclId) : Prop :=
  ∃ decl name body, s.program.function m = .ok decl ∧
    w.code.function? f = some ⟨name, List.replicate (decl.params.length + 1) .ptr, .ptr, body⟩

theorem Takes.later {f : FuncId} {m : DeclId} (h : Takes s w f m) (later : Later s w w') :
    Takes s w' f m := by
  obtain ⟨decl, name, _, isDecl, known⟩ := h
  obtain ⟨body, there, _⟩ := later.extends.code.function f _ known
  exact ⟨decl, name, body, isDecl, there⟩

/-- An environment of a method has a slot for each of its parameters. -/
theorem paramCount_of_declEnv (moment : Moment s w) {m : DeclId} {id : EnvId} {e : Environment}
    {decl : FunctionDecl} (bound : w.registry.declEnv? m = some id)
    (known : w.registry.env? id = some e) (isDecl : s.program.function m = .ok decl) :
    e.paramCount = decl.params.length := by
  obtain ⟨e', known', owned⟩ := moment.declEnv_owner m id bound
  obtain rfl : e' = e := Option.some.inj (known'.symm.trans known)
  have formed := moment.formed known owned
  obtain ⟨params, isParams, slots⟩ := formed.formals
  obtain ⟨d, isHere, isFunction⟩ := Program.decl_of_function isDecl
  obtain ⟨d', isHere', isParams⟩ := exists_of_bind_ok isParams
  obtain rfl : d = d' := Except.ok.inj (isHere.symm.trans isHere')
  rw [isFunction] at isParams
  cases isParams
  have enough : e'.paramCount ≤ e'.slots.length := by
    rw [formed.count]
    exact List.length_filter_le _ _
  have := slots.length_eq
  rw [List.length_take] at this
  omega

theorem tableEntry_takes (moment : Moment s w) (root : DeclId) (n : Name) (m : DeclId) :
    Ends s w (tableEntry root n m) fun entry w' => entry.2 = true → Takes s w' entry.1 m := by
  refine asks_bind fun decl isDecl => ((resolve_walks _ _ _).ends moment).bind
    fun _ w₁ there₁ _ => ?_
  have moment₁ := moment.later there₁.later
  split
  · refine ((externalFunction_walks _ _).ends moment₁).bind fun _ _ _ _ => .pure ?_
    exact fun never => by cases never
  · refine ((declName_walks root).ends moment₁).bind fun _ w₂ there₂ _ => ?_
    refine ((text_walks n).ends (moment₁.later there₂.later)).bind fun _ w₃ _ _ => ?_
    refine (declareCompiled_ends _ _).bind fun f w₄ _ made => .pure fun _ => ?_
    obtain ⟨_, _, name, there⟩ := made
    exact ⟨decl, name, none, isDecl, there⟩

theorem tableEntries_take (moment : Moment s w) (root : DeclId) (methods : List (Name × DeclId)) :
    Ends s w (methods.mapM fun (n, m) => tableEntry root n m) fun entries w' =>
      ∀ thunk n m, ((thunk, true), (n, m)) ∈ entries.zip methods → Takes s w' thunk m := by
  induction methods generalizing w with
  | nil => exact .pure (by simp)
  | cons method methods ih =>
    rw [List.mapM_cons]
    refine (tableEntry_takes moment root method.1 method.2).bind fun entry w₁ there₁ one => ?_
    refine (ih (moment.later there₁.later)).bind fun entries w₂ there₂ all => .pure ?_
    intro thunk n m inside
    rcases List.mem_cons.mp inside with isFirst | later
    · cases isFirst
      exact (one rfl).later there₂.later
    · exact all thunk n m later

/-- A pending function gets a body that is well formed. -/
theorem defineThunk_sound (hl : l.Sound s) (sound : w.Sound s) {thunk : FuncId} (root : DeclId)
    {m : DeclId} (takes : Takes s w thunk m)
    (absent : ∃ fn, w.code.function? thunk = some fn ∧ fn.body = none) {a : Unit}
    (isOwn : thunk ∈ w.compiled) (ran : defineThunk l thunk root m s w = .ok a w') :
    Proceeds s w w' ∧ w'.Sound s := by
  obtain ⟨c, w₁, ran₁, ran₂⟩ := of_bind_ok ran
  obtain ⟨since₁, key, isSubject, _, recorded⟩ :=
    (hl.walks.body sound.moment (.function m) (some root) []).of_ok ran₁
  obtain ⟨proceeds₁, sound₁⟩ := (hl.compiled (.function m) (some root) []).goes sound ran₁
  obtain ⟨fn, known, bodiless⟩ := absent
  have still := since₁.keeps _ _ known
  obtain ⟨e, w₂, ran₃, ran₄⟩ := of_bind_ok ran₂
  obtain ⟨known, rfl⟩ := of_env_ok ran₃
  have bound := (sound₁.moment.function_made key c recorded).1
  rw [isSubject] at bound
  have count : ∀ fn, w₁.code.function? thunk = some fn → fn.params.length = e.paramCount + 1 := by
    intro fn there
    obtain ⟨decl, name, body, isDecl, there'⟩ := takes.later proceeds₁.later
    cases there'.symm.trans there
    rw [List.length_replicate, paramCount_of_declEnv sound₁.moment bound known isDecl]
  split at ran₄
  · obtain ⟨_, w₃, _, never⟩ := of_bind_ok ran₄
    cases never
  · have last := define_course (s := s) (proceeds₁.course.compiled_stays isOwn) ran₄
    cases ran₄
    obtain ⟨formed, calls⟩ := thunkBody_spec thunk e c.func
    have once : ∀ fn, w₁.code.function? thunk = some fn → fn.body = none := by
      intro fn' there
      cases still.symm.trans there
      exact bodiless
    have step := (Step.define (s := s) thunk
      (writeBody thunk (e.paramCount + 1) (thunkSteps e c.func)) (.inl once)).later
    refine ⟨proceeds₁.trans (.of_same step last rfl fun _ _ known => known),
      sound₁.define (proceeds₁.course.compiled_stays isOwn) (sound₁.moment.later step)
        sound₁.made (fun fn there => count fn there ▸ formed) fun f n call => ?_⟩
    obtain ⟨rfl, rfl⟩ := calls f n call
    exact sound₁.made key c recorded

/-- The pending functions get their bodies one after the other. -/
theorem defineThunks_sound (hl : l.Sound s) (root : DeclId) {base : Work}
    (pairs : List ((FuncId × Bool) × Name × DeclId)) (there : Reaches s base w) (sound : w.Sound s)
    (pending : Pending base w (pairs.map (·.1)))
    (takes : ∀ thunk n m, ((thunk, true), (n, m)) ∈ pairs → Takes s w thunk m)
    (areOwn : ∀ thunk, (thunk, true) ∈ pairs.map (·.1) → thunk ∈ w.compiled) {a : Unit}
    (ran : (pairs.forM fun ((thunk, pending), (_, m)) => do
      if pending then defineThunk l thunk root m) s w = .ok a w') :
      Proceeds s w w' ∧ w'.Sound s := by
  induction pairs generalizing w with
  | nil =>
    cases ran
    exact ⟨.refl _, sound⟩
  | cons pair pairs ih =>
    obtain ⟨⟨thunk, isPending⟩, n, m⟩ := pair
    obtain ⟨_, w₁, ran₁, ran₂⟩ := of_bind_ok ran
    obtain ⟨there₁, later, pending₁⟩ :=
      (definePending_since hl.walks root n m there sound.moment pending).of_ok ran₁
    obtain ⟨proceeds₁, sound₁⟩ : Proceeds s w w₁ ∧ w₁.Sound s := by
      cases isPending with
      | false =>
        cases ran₁
        exact ⟨.refl _, sound⟩
      | true =>
        exact defineThunk_sound hl sound root (takes thunk n m (by simp))
          (pending.absent thunk (by simp)) (areOwn thunk (by simp)) ran₁
    obtain ⟨proceeds₂, sound₂⟩ := ih there₁ sound₁ pending₁
      (fun thunk n m inside => (takes thunk n m (by simp [inside])).later later)
      (fun thunk inside =>
        proceeds₁.course.compiled_stays (areOwn thunk (List.mem_cons_of_mem _ inside))) ran₂
    exact ⟨proceeds₁.trans proceeds₂, sound₂⟩

theorem openTable_mild (root : DeclId) (array : TyId) (length : Nat)
    (methods : List (Name × DeclId)) : Mild (openTable root array length methods) :=
  .bind Quiet.read.mild fun _ => .bind (.mapM (fun (n, m) => tableEntry_mild root n m) _) fun _ =>
    .bind (declName_quiet _).mild fun _ => .bind (addGlobal_quiet _ _ _ _).mild fun _ =>
      .bind (addTable_quiet _).mild fun _ => (Quiet.pure _).mild

/-- The entries of a table are declared one after the other. -/
theorem tableEntries_course {root : DeclId} {methods : List (Name × DeclId)}
    {entries : List (FuncId × Bool)} (members : ∀ n m, (n, m) ∈ methods → s.program.Called m true)
    (ran : (methods.mapM fun (n, m) => tableEntry root n m) s w = .ok entries w') :
    Course s w w' ∧ ∀ f, (f, true) ∈ entries → f ∈ w'.compiled := by
  induction methods generalizing w entries with
  | nil =>
    cases ran
    exact ⟨.refl _, by simp⟩
  | cons method methods ih =>
    rw [List.mapM_cons] at ran
    obtain ⟨entry, w₁, ran₁, ran⟩ := of_bind_ok ran
    obtain ⟨rest, w₂, ran₂, ran⟩ := of_bind_ok ran
    cases ran
    obtain ⟨course₁, isOwn⟩ := tableEntry_course (members _ _ List.mem_cons_self) ran₁
    obtain ⟨course₂, areOwn⟩ := ih (fun n m inside => members n m (List.mem_cons_of_mem _ inside))
      ran₂
    refine ⟨course₁.trans course₂, fun f inside => ?_⟩
    rcases List.mem_cons.mp inside with rfl | later
    · exact course₂.compiled_stays (isOwn rfl)
    · exact areOwn f later

theorem openTable_course {root : DeclId} {array : TyId} {length : Nat}
    {methods : List (Name × DeclId)} {t : MethodTable} {entries : List (FuncId × Bool)}
    (members : ∀ n m, (n, m) ∈ methods → s.program.Called m true)
    (ran : openTable root array length methods s w = .ok (t, entries) w') :
    Course s w w' ∧ ∀ f, (f, true) ∈ entries → f ∈ w'.compiled := by
  obtain ⟨_, w₁, ran₁, ran⟩ := of_bind_ok ran
  cases ran₁
  obtain ⟨entries', w₂, ran₂, ran⟩ := of_bind_ok ran
  obtain ⟨course, areOwn⟩ := tableEntries_course members ran₂
  have quiet : Quiet (do
      let name := "vtable." ++ (← declName root)
      let initial := tableInitial s.config.tableHeader length (entries'.map (·.1))
      let global ← code (·.addGlobal name array true initial)
      let table : MethodTable :=
        { root, global, array, length, header := s.config.tableHeader, methods, external := false }
      addTable table
      return (table, entries')) :=
    .bind (declName_quiet _) fun _ => .bind (addGlobal_quiet _ _ _ _) fun _ =>
      .bind (addTable_quiet _) fun _ => .pure _
  have still := quiet.still ran
  cases ran
  exact ⟨course.trans still.course, fun f inside => still.compiled ▸ areOwn f inside⟩

theorem openTable_takes (moment : Moment s w) {root : DeclId} {array : TyId} {length : Nat}
    {methods : List (Name × DeclId)} {t : MethodTable} {entries : List (FuncId × Bool)}
    (ran : openTable root array length methods s w = .ok (t, entries) w')
    {thunk : FuncId} {n : Name}
    {m : DeclId} (inside : ((thunk, true), (n, m)) ∈ entries.zip methods) : Takes s w' thunk m := by
  obtain ⟨_, w₁, ran₁, ran⟩ := of_bind_ok ran
  cases ran₁
  obtain ⟨entries', w₂, ran₂, ran⟩ := of_bind_ok ran
  obtain ⟨_, all⟩ := (tableEntries_take moment root methods).of_ok ran₂
  cases ran
  exact all thunk n m inside

theorem emitTable_sound (hl : l.Sound s) (sound : w.Sound s) {root : DeclId} {array : TyId}
    {length : Nat} {methods : List (Name × DeclId)} {c : ClassDecl}
    (virtuals : s.program.namedVirtuals root = .ok methods)
    (isClass : s.program.classDecl root = .ok c)
    (isLength : length = c.tableSize.getD (s.config.tableHeader + methods.length))
    (enough : s.config.tableHeader + methods.length ≤ length)
    (own : s.resolver.tableSymbol s.program root = none) (new : w.tables.get? root = none)
    (isArray : w.code.types.get array = .array .ptr length) {t : MethodTable}
    (ran : emitTable l root array length methods s w = .ok t w') :
    Proceeds s w w' ∧ w'.Sound s := by
  rw [emitTable_eq] at ran
  obtain ⟨⟨t', entries⟩, w₁, ran₁, ran⟩ := of_bind_ok ran
  obtain ⟨there, _, _, _, _, _, pending⟩ :=
    (openTable_ends sound.moment virtuals isClass isLength enough own new isArray).of_ok ran₁
  obtain ⟨course₁, areOwn⟩ :=
    openTable_course (fun n m inside => Program.called_of_namedVirtuals virtuals inside) ran₁
  obtain ⟨proceeds₁, sound₁⟩ := sound.mild there course₁ ((openTable_mild _ _ _ _).ends ran₁)
  obtain ⟨_, w₂, ran₂, ran⟩ := of_bind_ok ran
  cases ran
  obtain ⟨proceeds₂, sound₂⟩ := defineThunks_sound hl root _ there sound₁ pending
    (fun thunk n m inside => openTable_takes sound.moment ran₁ inside)
    (fun thunk inside => by
      obtain ⟨pair, isPair, same⟩ := List.mem_map.mp inside
      exact areOwn thunk (same ▸ (List.of_mem_zip isPair).1)) ran₂
  exact ⟨proceeds₁.trans proceeds₂, sound₂⟩

/-- A table that is not there yet is made for the virtual methods of the class. -/
theorem of_tableOf_new {root : DeclId} {t : MethodTable} (new : w.tables.get? root = none)
    (ran : tableOf l root s w = .ok t w') :
    ∃ (methods : List (Name × DeclId)) (c : ClassDecl) (length : Nat) (array : TyId) (w₁ : Work),
      s.program.namedVirtuals root = .ok methods ∧ s.program.classDecl root = .ok c ∧
      length = c.tableSize.getD (s.config.tableHeader + methods.length) ∧
      s.config.tableHeader + methods.length ≤ length ∧
      types (·.array .ptr length) s w = .ok array w₁ ∧
      (match s.resolver.tableSymbol s.program root with
        | some symbol => do
          let global ← code (·.declareGlobal symbol array true)
          let table : MethodTable :=
            { root, global, array, length, header :=
              s.config.tableHeader, methods, external := true }
          addTable table
          return table
        | none => emitTable l root array length methods) s w₁ = .ok t w' := by
  obtain ⟨_, w₁, ran₁, ran⟩ := of_bind_ok ran
  cases ran₁
  simp only [new] at ran
  obtain ⟨_, w₁, ran₁, ran⟩ := of_bind_ok ran
  cases ran₁
  obtain ⟨methods, w₁, ran₁, ran⟩ := of_bind_ok ran
  obtain ⟨rfl, virtuals⟩ := of_asks_ok ran₁
  obtain ⟨c, w₁, ran₁, ran⟩ := of_bind_ok ran
  obtain ⟨rfl, isClass⟩ := of_asks_ok ran₁
  split at ran
  · obtain ⟨_, _, _, ran⟩ := of_bind_ok ran
    obtain ⟨_, _, never, _⟩ := of_bind_ok ran
    cases never
  · rename_i enough
    obtain ⟨array, w₁, ran₁, ran⟩ := of_bind_ok ran
    exact ⟨methods, c, _, array, w₁, virtuals, isClass, rfl, Nat.le_of_not_lt enough, ran₁, ran⟩

theorem of_types_array {length : Nat} {array : TyId}
    (ran : types (·.array .ptr length) s w = .ok array w') :
    Reaches s w w' ∧ w'.code.types.get array = .array .ptr length ∧ w'.tables = w.tables :=
  (intern_ends (Q := fun array w' => w'.code.types.get array = .array .ptr length ∧
    w'.tables = w.tables)
    (fun _ => rfl) ⟨TypeTable.get_intern _ _, rfl⟩).of_ok ran

theorem tableOf_sound (hl : l.Sound s) (root : DeclId) : Sound s (tableOf l root) := by
  refine ⟨fun {w w' t} sound ran => ?_⟩
  have there := ((tableOf_ends hl.walks sound.moment root).of_ok ran).1
  cases known : w.tables.get? root with
  | some t' =>
    obtain ⟨_, w₁, ran₁, ran⟩ := of_bind_ok ran
    cases ran₁
    simp only [known] at ran
    cases ran
    exact ⟨.refl _, sound⟩
  | none =>
    obtain ⟨methods, c, length, array, w₁, virtuals, isClass, isLength, enough, ran₁, ran⟩ :=
      of_tableOf_new known ran
    obtain ⟨there₁, isArray, same⟩ := of_types_array ran₁
    have still := (types_quiet _).still ran₁
    obtain ⟨proceeds₁, sound₁⟩ := sound.mild there₁ still.course ⟨.of_still still, still.envs⟩
    cases symbol : s.resolver.tableSymbol s.program root with
    | some name =>
      simp only [symbol] at ran
      have rest := Quiet.still (.bind (declareGlobal_quiet _ _ _) fun _ => .bind (addTable_quiet _)
        fun _ => .pure _) ran
      have whole := still.trans rest
      exact sound.mild there whole.course ⟨.of_still whole, whole.envs⟩
    | none =>
      simp only [symbol] at ran
      rw [← same] at known
      obtain ⟨proceeds₂, sound₂⟩ :=
        emitTable_sound hl sound₁ virtuals isClass isLength enough symbol known isArray ran
      exact ⟨proceeds₁.trans proceeds₂, sound₂⟩

/-! ## Overriding methods -/

theorem trampoline_sound (sound : w.Sound s) {cls m : DeclId} {n : Name} {t : MethodTable}
    {overrides : List (Name × DeclId × Nat)} {slot k : Nat} {c : CompiledFunction}
    (overriding : Overriding s cls t overrides) (here : overrides[k]? = some (n, m, slot))
    (bound : w.registry.declEnv? m = some c.env) {func : FuncId}
    (ran : trampoline cls n c (t.length + k) s w = .ok func w') : Proceeds s w w' ∧ w'.Sound s := by
  have there := ((trampoline_ends sound.moment overriding here bound).of_ok ran).1
  obtain ⟨_, w₁, ran₁, ran⟩ := of_bind_ok ran
  cases ran₁
  cases known : w.overrides.get? (cls, n) with
  | some found =>
    simp only [known] at ran
    cases ran
    exact ⟨.refl _, sound⟩
  | none =>
    simp only [known] at ran
    obtain ⟨layout, w₁, ran₁, ran⟩ := of_bind_ok ran
    have sound₁ := (Sound.of_quiet (layoutOf_walks cls) (layoutOf_quiet cls)).goes sound ran₁
    obtain ⟨e, w₂, ran₂, ran⟩ := of_bind_ok ran
    obtain ⟨_, rfl⟩ := of_env_ok ran₂
    obtain ⟨name, w₂, ran₂, ran⟩ := of_bind_ok ran
    cases ran₂
    obtain ⟨text, w₂, ran₂, ran⟩ := of_bind_ok ran
    cases ran₂
    obtain ⟨f, w₂, ran₂, ran⟩ := of_bind_ok ran
    obtain ⟨course₂, isOwn⟩ := declareCompiled_course (s := s) ran₂
    have sound₂ := (Sound.of_mild (declareCompiled_walks _ _) (declareCompiled_mild _ _)
      fun ran => (declareCompiled_course ran).1).goes sound₁.2 ran₂
    have same : w₂.functions = w.functions :=
      ((declareCompiled_mild _ _).calm ran₂).made.trans ((layoutOf_quiet cls).calm ran₁).made
    obtain ⟨_, _, _, full, declared⟩ := (declareCompiled_ends (s := s) (w := w₁) _ _).of_ok ran₂
    obtain ⟨rt, w₃, ran₃, ran⟩ := of_bind_ok ran
    cases ran₃
    obtain ⟨_, w₃, ran₃, ran⟩ := of_bind_ok ran
    have course₃ := define_course (s := s) isOwn ran₃
    cases ran₃
    obtain ⟨_, w₄, ran₄, ran⟩ := of_bind_ok ran
    cases ran₄
    cases ran
    have course := (sound₁.1.course.trans course₂).trans course₃
    obtain ⟨formed, calls⟩ := trampolineBody_spec func s.runtime layout e
      (Int64.ofNat (min (t.length + k) 0x7FFFFFFF))
    refine ⟨.of_same there.later (course.trans (Turn.course (.aside rfl rfl))) same there.layouts,
      sound₂.2.define isOwn (sound.moment.later there.later) sound₂.2.made (fun fn known => ?_)
      fun callee arity call => ?_⟩
    · obtain rfl : _ = fn := Option.some.inj (declared.symm.trans known)
      rw [List.length_replicate]
      exact formed
    · obtain ⟨rfl, rfl⟩ := calls callee arity call
      exact .closures

end Compile

namespace Emit

variable {s : Setup} {l : Lowering} {U : ValueId → Prop}

theorem copyTable_sound {table copy : ValueId} (length : Nat) (h : U table) (h' : U copy) :
    Sound s U (copyTable table copy length) fun _ => [] := by
  apply Sound.forM
  intro i _
  apply (index_sound i).bind
  intro position
  apply (Sound.write (.elemAddr _ _ (by simp [h]) (by simp))).bind
  intro source
  apply (Sound.write (.load _ _ (by simp))).bind
  intro entry
  apply (Sound.write (.elemAddr _ _ (by simp [h']) (by simp))).bind
  intro slot
  exact .write (.store (by simp) (by simp))

theorem patchSlot_sound (hl : l.Sound s) {cls m : DeclId} {n : Name} {t : MethodTable}
    {overrides : List (Name × DeclId × Nat)} {slot k : Nat}
    (overriding : Overriding s cls t overrides) (here : overrides[k]? = some (n, m, slot))
    {obj copy : ValueId} (h : U obj) (h' : U copy) :
    Sound s U (patchSlot l cls obj copy n m slot (t.length + k)) fun _ => [] := by
  refine ⟨fun {w w' f f' g a} stands uses ran => ?_⟩
  obtain ⟨c, f₁, w₁, ran₁, ran⟩ := of_bind_ok ran
  obtain ⟨rfl, made⟩ := of_lift_ok ran₁
  obtain ⟨_, key, isSubject, _, recorded⟩ :=
    (hl.walks.body stands.sound.moment (.function m) (some cls) []).of_ok made
  obtain ⟨g₁, goes₁, _⟩ := (hl.body (.function m) (some cls) []).goes stands uses ran₁
  have bound := (goes₁.sound.moment.function_made key c recorded).1
  rw [isSubject] at bound
  obtain ⟨closure, f₂, w₂, ran₂, ran⟩ := of_bind_ok ran
  have isObject : ∀ v, some obj = some v → U v := by
    rintro v ⟨⟩
    exact h
  obtain ⟨g₂, goes₂, given⟩ := (closureOf_sound c m isObject).goes (goes₁.stands stands)
    (fun v used => goes₁.becomes.keeps v (uses v used)) ran₂
  have goes := goes₁.trans goes₂
  obtain ⟨func, f₃, w₃, ran₃, ran⟩ := of_bind_ok ran
  obtain ⟨rfl, made⟩ := of_lift_ok ran₃
  obtain ⟨proceeds₃, sound₃⟩ := Compile.trampoline_sound goes₂.sound overriding here
    (goes₂.later.extends.registry.declEnv _ _ bound) made
  have onward : Frame.Goes s w f g w₃ f₂ g₂ :=
    ⟨goes.proceeds.trans proceeds₃, sound₃, goes.frame, goes.becomes,
      goes.calls.trans proceeds₃.course (.refl _)⟩
  have rest : Sound s (fun v => v = closure.ptr ∨ U v) (do
      let held ← elemAddr copy (t.length + k) "vclosure"
      Draft.store closure.ptr held
      let entry ← elemAddr copy slot "vslot"
      let code ← Draft.funcAddr func
      Draft.store code entry : Emit Unit) fun _ => [] := by
    apply (elemAddr_sound _ _ (by simp [h'])).bind
    intro held
    apply (Sound.write (.store (by simp) (by simp))).andThen
    intro _
    apply (elemAddr_sound _ _ (by simp [h'])).bind
    intro entry
    apply (Sound.write (.plain _)).bind
    intro code
    exact .write (.store (by simp) (by simp))
  have uses₃ : ∀ v, v = closure.ptr ∨ U v → f₂.draft.Has g₂ v := by
    rintro v (rfl | isUsed)
    · exact given _ (by simp)
    · exact goes.becomes.keeps v (uses v isUsed)
  obtain ⟨g', goes', given'⟩ := rest.goes (onward.stands stands) uses₃ ran
  exact ⟨g', onward.trans goes', given'⟩

theorem placeTable_sound (hl : l.Sound s) {cls : DeclId} {t : MethodTable}
    {overrides : List (Name × DeclId × Nat)} (overriding : Overriding s cls t overrides)
    {obj : ValueId} (h : U obj) : Sound s U (placeTable l obj cls t overrides) fun _ => [] := by
  apply (Sound.quiet (Compile.layoutOf_walks cls) (Compile.layoutOf_quiet cls)).andThen
  intro layout
  apply (Sound.write (.plain _)).bind
  intro table
  apply Sound.ite (storeField_sound _ _ (by simp [h]) (by simp))
  apply (Sound.quiet (Compile.array_walks _ _) (Compile.types_quiet _)).andThen
  intro own
  apply (Sound.write (.alloc _ _)).bind
  intro copy
  apply (copyTable_sound _ (by simp) (by simp)).andThen
  intro _
  apply (storeField_sound _ _ (by simp [h]) (by simp)).andThen
  intro _
  apply Sound.forM
  rintro ⟨⟨n, m, slot⟩, closureSlot⟩ inside
  obtain ⟨atLeast, here⟩ := List.mk_mem_zipIdx_iff_le_and_getElem?_sub.mp inside
  obtain ⟨k, rfl⟩ := Nat.exists_eq_add_of_le atLeast
  rw [Nat.add_sub_cancel_left] at here
  exact patchSlot_sound hl overriding here (by simp [h]) (by simp)

theorem installTable_sound (hl : l.Sound s) {obj : ValueId} (cls : DeclId) (h : U obj) :
    Sound s U (installTable l obj cls) fun _ => [] := by
  refine ⟨fun {w w' f f' g a} stands uses ran => ?_⟩
  obtain ⟨found, f₁, w₁, ran₁, ran⟩ := of_bind_ok ran
  obtain ⟨rfl, rfl, isRoot⟩ := of_asks_ok ran₁
  cases found with
  | none =>
    cases ran
    exact ⟨g, .refl stands, by simp⟩
  | some root =>
    obtain ⟨t, f₁, w₁, ran₁, ran⟩ := of_bind_ok ran
    obtain ⟨rfl, made⟩ := of_lift_ok ran₁
    obtain ⟨_, rfl, fits, _⟩ := (Compile.tableOf_ends hl.walks stands.sound.moment root).of_ok made
    obtain ⟨g₁, goes₁, _⟩ := (Sound.lift (Compile.tableOf_sound hl t.root)).goes stands uses ran₁
    have uses₁ v (used : U v) := goes₁.becomes.keeps v (uses v used)
    obtain ⟨chain, f₂, w₂, ran₂, ran⟩ := of_bind_ok ran
    obtain ⟨rfl, rfl, isChain⟩ := of_asks_ok ran₂
    have checks : Sound s U ((chain.takeWhile (· ≠ t.root)).forM fun c => do
        (← Compile.asks (·.ownFunctions c .method)).forM fun m => Compile.checkOverride t c m :
        Emit Unit) fun _ => [] := by
      apply Sound.forM
      intro c _
      apply (Sound.asks _).andThen
      intro methods
      apply Sound.forM
      intro m _
      exact .quiet (Compile.checkOverride_walks t c m) (Compile.checkOverride_quiet t c m)
    obtain ⟨_, f₂, w₂, ran₂, ran⟩ := of_bind_ok ran
    obtain ⟨g₂, goes₂, _⟩ := checks.goes (goes₁.stands stands) uses₁ ran₂
    obtain ⟨overrides, f₃, w₃, ran₃, ran⟩ := of_bind_ok ran
    obtain ⟨rfl, rfl, listed⟩ := of_asks_ok ran₃
    have overriding : Overriding s cls t overrides := ⟨isRoot, fits, chain, isChain, listed⟩
    have goes := goes₁.trans goes₂
    obtain ⟨g', goes', given⟩ := (placeTable_sound hl overriding h).goes (goes.stands stands)
      (fun v used => goes.becomes.keeps v (uses v used)) ran
    exact ⟨g', goes.trans goes', given⟩

/-! ## Calls through tables -/

theorem virtualSlot_sound (hl : l.Sound s) (cls m : DeclId) :
    Sound s U (virtualSlot l cls m) fun _ => [] := by
  apply (Sound.asks _).andThen
  intro root
  cases root with
  | none => exact .pure (by simp)
  | some root =>
    apply (Sound.asks _).andThen
    intro d
    apply (Sound.asks _).andThen
    intro methods
    exact .ite ((Sound.lift (Compile.tableOf_sound hl root)).andThen fun _ => .pure (by simp))
      (.pure (by simp))

theorem virtualBody_sound (hl : l.Sound s) (cls m : DeclId) :
    Compile.Sound s (virtualBody l cls m) := by
  apply (Compile.Sound.of_quiet (Compile.resolve_walks _ _ _) (Compile.resolve_quiet _ _ _)).bind
  intro resolution
  split
  · exact .pure _
  · exact (hl.compiled _ _ _).bind fun _ => .pure _

theorem callSlot_sound (cls : DeclId) {this : ValueId} (slot : Nat) {values : List ValueId}
    (h : U this) (h' : ∀ v ∈ values, U v) : Sound s U (callSlot cls this slot values)
    fun v => [v] := by
  apply (Sound.quiet (Compile.layoutOf_walks cls) (Compile.layoutOf_quiet cls)).andThen
  intro layout
  apply (loadField_sound _ _ _ h).bind
  intro table
  apply (elemAddr_sound _ _ (by simp)).bind
  intro entry
  apply (Sound.write (.load _ _ (by simp))).bind
  intro code
  apply (Sound.quiet (Compile.func_walks _ _) (Compile.types_quiet _)).andThen
  intro sig
  refine (Sound.write (.callIndirect _ _ _ (by simp) ?_)).bind ?_
  · intro v inside
    rcases List.mem_cons.mp inside with rfl | isValue
    · simp [h]
    · simp [h' v isValue]
  · intro result
    cases result with
    | some r => exact .pure (by simp)
    | none => exact .write (.plain _)

theorem virtualCall_sound (hl : l.Sound s) {object : Operand} (cls m : DeclId) (slot : Nat)
    {args : List Operand} (h : U object.value) (h' : ∀ v ∈ args, U v.value) :
    Sound s U (virtualCall l object cls m slot args) fun v => [v.value] := by
  apply (Sound.asks _).andThen
  intro f
  apply (Sound.lift (virtualBody_sound hl cls m)).andThen
  intro c
  apply (boxed_sound h).bind
  intro this
  refine (Sound.mapM (fun p => [p]) _ ?_).bind ?_
  · rintro ⟨d, i⟩ _
    have argument (info : Info) : Sound s (fun v => v ∈ [this] ∨ U v) (l.argument args[i]? info)
        fun p => [p] :=
      hl.argument _ fun v found => .inr (h' v (List.mem_of_getElem? found))
    dsimp only
    split
    · exact (Sound.pure (by simp)).andThen argument
    · apply (Sound.asks _).andThen
      intro q
      exact (closedInfoOf_sound _).andThen argument
  · intro values
    have rest (ret : Info) : Sound s
        (fun v => v ∈ values.flatMap (fun p => [p]) ∨ v ∈ [this] ∨ U v) (do
          return .boxed (← callSlot cls this slot values) ret : Emit Operand) fun v => [v.value] :=
      (callSlot_sound cls slot (by simp) fun v inside => .inl (by simpa using inside)).bind fun _ =>
        .pure (by simp [Operand.boxed])
    dsimp only
    split
    · exact (Sound.pure (by simp)).andThen rest
    · exact (closedInfoOf_sound _).andThen rest
    · exact (Sound.pure (by simp)).andThen rest

end Emit

end ShapeCompiler
