import ShapeCompiler.Proofs.Bodies

/-!
# Method tables are made once

* `tableOf_ends`: the shared table of a class has the form that the program asks for;
* `trampoline_ends`: what stands for an overriding method calls the closure behind the table;
* `installTable_walks`, `virtualCall_walks`.
-/

namespace ShapeCompiler

open Source Code Work

/-! ## Method tables -/

namespace Compile

variable {s : Setup} {w base : Work} {l : Lowering}

/-- The functions of a table that still need their bodies: they were not there before, differ from
one another, and have no body yet. -/
structure Pending (base w : Work) (entries : List (FuncId × Bool)) : Prop where
  new : ∀ f, (f, true) ∈ entries → base.code.function? f = none
  absent : ∀ f, (f, true) ∈ entries → ∃ fn, w.code.function? f = some fn ∧ fn.body = none
  distinct : ((entries.filter (·.2)).map (·.1)).Nodup

theorem Pending.later {w' : Work} {entries : List (FuncId × Bool)} (h : Pending base w entries)
    (since : Reaches s w w') : Pending base w' entries := by
  refine ⟨h.new, fun f inside => ?_, h.distinct⟩
  obtain ⟨fn, known, absent⟩ := h.absent f inside
  exact ⟨fn, since.keeps f fn known, absent⟩

theorem tableEntry_ends (moment : Moment s w) (root : DeclId) (n : Name) (m : DeclId) :
    Ends s w (tableEntry root n m) fun entry w' => Pending w w' [entry] := by
  refine asks_bind fun f _ => ((resolve_walks _ _ _).ends moment).bind
    fun resolution w₁ there₁ _ => ?_
  have moment₁ := moment.later there₁.later
  split
  · exact ((externalFunction_walks _ _).ends moment₁).bind fun _ _ _ _ =>
      .pure ⟨by simp, by simp, by simp⟩
  · refine ((declName_walks root).ends moment₁).bind fun _ w₂ there₂ _ => ?_
    have moment₂ := moment₁.later there₂.later
    refine ((text_walks n).ends moment₂).bind fun _ w₃ there₃ _ => ?_
    refine (declareCompiled_ends _ _).bind fun f w₄ _ made => .pure ?_
    obtain ⟨_, new, name, there⟩ := made
    have old := ((there₁.trans there₂).trans there₃).not_there new
    exact ⟨by simp [old], by simp [there], by simp⟩

/-- The functions of a table are declared one after the other. -/
theorem tableEntries_ends (moment : Moment s w) (root : DeclId) (methods : List (Name × DeclId)) :
    Ends s w (methods.mapM fun (n, m) => tableEntry root n m) fun entries w' =>
      entries.length = methods.length ∧ Pending w w' entries := by
  induction methods generalizing w with
  | nil => exact .pure ⟨rfl, by simp, by simp, by simp⟩
  | cons method methods ih =>
    rw [List.mapM_cons]
    refine (tableEntry_ends moment root method.1 method.2).bind fun entry w₁ there₁ one => ?_
    refine (ih (moment.later there₁.later)).bind fun entries w₂ there₂ all => .pure ?_
    obtain ⟨sameLength, all⟩ := all
    refine ⟨by simp [sameLength], ?_, ?_, ?_⟩
    · intro f member
      rcases List.mem_cons.mp member with rfl | member
      · exact one.new f (by simp)
      · exact there₁.not_there (all.new f member)
    · intro f member
      rcases List.mem_cons.mp member with rfl | member
      · obtain ⟨fn, known, absent⟩ := one.absent f (by simp)
        exact ⟨fn, there₂.keeps f fn known, absent⟩
      · exact all.absent f member
    · obtain ⟨f, pending⟩ := entry
      cases pending with
      | false => simpa using all.distinct
      | true =>
        simp only [List.filter_cons_of_pos, List.map_cons, List.nodup_cons]
        refine ⟨fun member => ?_, all.distinct⟩
        obtain ⟨⟨f', pending⟩, member, same⟩ := List.mem_map.mp member
        obtain ⟨inside, isPending⟩ := List.mem_filter.mp member
        cases same
        cases isPending
        obtain ⟨fn, known, _⟩ := one.absent f' (by simp)
        simp [all.new f' inside] at known

theorem tableEntry_bodiless (root : DeclId) (n : Name) (m : DeclId) :
    Bodiless s (tableEntry root n m) := by
  refine .bind (.asks _) fun f => .bind (.resolve _ _ _) fun resolution => ?_
  split
  · exact .bind (.externalFunction _ _) fun _ => .pure _
  · exact .bind (.declName _) fun _ => .bind (.text _) fun _ =>
        .bind (.declareCompiled _ _) fun _ =>
      .pure _

/-- A pending function gets its body; other functions stay. -/
theorem defineThunk_since (hl : l.Walks s) (there : Reaches s base w) (moment : Moment s w)
    {thunk : FuncId} (root m : DeclId) (new : base.code.function? thunk = none)
    (absent : ∃ fn, w.code.function? thunk = some fn ∧ fn.body = none) :
    Since s base w (defineThunk l thunk root m) fun _ w' => Later s w w' ∧
      ∀ f fn, f ≠ thunk → w.code.function? f = some fn → w'.code.function? f = some fn := by
  refine .after (hl.body moment (.function m) (some root) []) there fun c w₁ since _ => ?_
  have there₁ := there.trans since
  refine .env_bind there₁ fun e _ => ?_
  dsimp only
  split
  · refine Ends.since there₁ (((declName_walks m).ends (moment.later since.later)).bind ?_)
    intro _ w₂ _ _
    exact Ends.bind (Q := fun _ _ => False) (.throw trivial) fun _ _ _ never => never.elim
  · obtain ⟨fn, known, absent⟩ := absent
    refine .define _ there₁ new (since.keeps _ _ known) absent fun w₂ later _ _ others => ?_
    exact ⟨since.later.trans later, fun f fn' apart there' => others f fn' apart
      (since.keeps f fn' there')⟩

/-- The first of the functions gets its body if it needs one; the others still do. -/
theorem definePending_since (hl : l.Walks s) (root : DeclId) {thunk : FuncId} {isPending : Bool}
    (n : Name) (m : DeclId) {pairs : List ((FuncId × Bool) × Name × DeclId)}
    (there : Reaches s base w) (moment : Moment s w)
    (pending : Pending base w ((((thunk, isPending), (n, m)) :: pairs).map (·.1))) :
    Since s base w (if isPending then defineThunk l thunk root m else pure ())
      fun _ w' => Later s w w' ∧ Pending base w' (pairs.map (·.1)) := by
  cases isPending with
  | false =>
    refine (Ends.pure ⟨.same, ?_⟩).since there
    exact ⟨fun f inside => pending.new f (by simp [inside]),
      fun f inside => pending.absent f (by simp [inside]), by simpa using pending.distinct⟩
  | true =>
    have defined := defineThunk_since hl there moment root m (pending.new thunk (by simp))
      (pending.absent thunk (by simp))
    refine Since.mono defined fun _ w' _ made => ⟨made.1, ?_⟩
    have distinct := pending.distinct
    simp only [List.map_cons, List.filter_cons_of_pos, List.nodup_cons] at distinct
    have apart : ∀ f, (f, true) ∈ pairs.map (·.1) → f ≠ thunk := by
      rintro f inside rfl
      exact distinct.1 (List.mem_map.mpr ⟨(f, true), List.mem_filter.mpr ⟨inside, rfl⟩, rfl⟩)
    refine ⟨fun f inside => pending.new f (by simp [inside]), fun f inside => ?_, distinct.2⟩
    obtain ⟨fn, known, absent⟩ := pending.absent f (by simp [inside])
    exact ⟨fn, made.2 f fn (apart f inside) known, absent⟩

/-- The pending functions get their bodies one after the other. -/
theorem defineThunks_since (hl : l.Walks s) (root : DeclId)
    (pairs : List ((FuncId × Bool) × Name × DeclId)) (there : Reaches s base w)
    (moment : Moment s w) (pending : Pending base w (pairs.map (·.1))) :
    Since s base w (pairs.forM fun ((thunk, pending), (_, m)) => do
      if pending then defineThunk l thunk root m) fun _ w' => Later s w w' := by
  induction pairs generalizing w with
  | nil => exact (Ends.pure .same).since there
  | cons pair pairs ih =>
    obtain ⟨⟨thunk, isPending⟩, n, m⟩ := pair
    refine Since.bind (definePending_since hl root n m there moment pending)
      fun _ w' there' made => ?_
    exact (ih there' (moment.later made.1) made.2).mono fun _ _ _ later => made.1.trans later

/-- The shared table that is made here, before its functions get their bodies. -/
def openTable (root : DeclId) (array : TyId) (length : Nat) (methods : List (Name × DeclId)) :
    Compile (MethodTable × List (FuncId × Bool)) := do
  let header := (← read).config.tableHeader
  let entries ← methods.mapM fun (n, m) => tableEntry root n m
  let name := "vtable." ++ (← declName root)
  let initial := tableInitial header length (entries.map (·.1))
  let global ← code (·.addGlobal name array true initial)
  let table : MethodTable := { root, global, array, length, header, methods, external := false }
  addTable table
  return (table, entries)

theorem emitTable_eq (root : DeclId) (array : TyId) (length : Nat)
    (methods : List (Name × DeclId)) :
    emitTable l root array length methods = do
      let (table, entries) ← openTable root array length methods
      (entries.zip methods).forM fun ((thunk, pending), (_, m)) => do
        if pending then defineThunk l thunk root m
      return table := by
  simp only [emitTable, openTable, bind_assoc, pure_bind]

theorem openTable_ends (moment : Moment s w) {root : DeclId} {array : TyId}
    {length : Nat} {methods : List (Name × DeclId)} {c : ClassDecl}
    (virtuals : s.program.namedVirtuals root = .ok methods)
    (isClass : s.program.classDecl root = .ok c)
    (isLength : length = c.tableSize.getD (s.config.tableHeader + methods.length))
    (enough : s.config.tableHeader + methods.length ≤ length)
    (own : s.resolver.tableSymbol s.program root = none) (new : w.tables.get? root = none)
    (isArray : w.code.types.get array = .array .ptr length) :
    Ends s w (openTable root array length methods) fun (t, entries) w' =>
      t.root = root ∧ t.Fits s ∧ t.Made s w' ∧ w'.tables.get? root = some t ∧
        t.Holds w' (entries.map (·.1)) ∧ Pending w w' ((entries.zip methods).map (·.1)) := by
  have declared := (tableEntries_ends moment root methods).recorded
    (.mapM (fun (n, m) => tableEntry_bodiless root n m) _)
  refine .read_bind (Since.ends (.after declared (.refl w) ?_))
  intro entries w₁ since₁ ⟨⟨sameLength, pending⟩, same₁⟩
  have moment₁ := moment.later since₁.later
  refine .after (((declName_walks root).ends moment₁).recorded (.declName root)) since₁
    fun name w₂ since₂ same₂ => ?_
  have there₂ := since₁.trans since₂
  have added : Ends s w₂ (code (·.addGlobal ("vtable." ++ name) array true
      (tableInitial s.config.tableHeader length (entries.map (·.1))))) fun g w' =>
        ∃ full, w'.code.global? g = some ⟨full, array, true,
          some (tableInitial s.config.tableHeader length (entries.map (·.1)))⟩ :=
    addGlobal_ends fun _ _ full _ _ known => ⟨full, known⟩
  refine .after (added.recorded (.code _)) there₂ fun g w₃ since₃ made => ?_
  have there₃ := there₂.trans since₃
  obtain ⟨⟨full, known⟩, same₃⟩ := made
  have same : w₃.tables = w.tables := (Prod.mk.inj (same₃.trans (same₂.2.trans same₁))).2
  have fits : MethodTable.Fits s ⟨root, g, array, length, s.config.tableHeader, methods, false⟩ :=
    ⟨rfl, virtuals, ⟨c, isClass, isLength⟩, enough, by simp [own]⟩
  have holds : MethodTable.Holds w₃ ⟨root, g, array, length, s.config.tableHeader, methods, false⟩
      (entries.map (·.1)) := ⟨by simp [sameLength], full, known⟩
  have isArray₃ := TypeTable.get_of_grows there₃.later.extends.code.types isArray
    (by simp) (by simp)
  dsimp only
  have made : MethodTable.Made s w₃ ⟨root, g, array, length, s.config.tableHeader,
      methods, false⟩ :=
    ⟨fun _ => ⟨isArray₃, _, holds⟩, by simp [own]⟩
  refine .after (Q := fun _ w' => w'.tables.get? root = some _)
    (.modify (.table fits made (by rwa [same])) ⟨rfl, rfl, rfl, rfl, rfl⟩
      (Table.get?_insert_self _ _ _)) there₃ ?_
  intro _ w₄ since₄ recorded
  have there₄ := there₃.trans since₄
  have pairs : (entries.zip methods).map (·.1) = entries := List.map_fst_zip (by omega)
  have still : Pending w w₄ ((entries.zip methods).map (·.1)) :=
    pairs.symm ▸ pending.later ((since₂.trans since₃).trans since₄)
  exact (Ends.pure ⟨rfl, fits, since₄.later.made made, recorded,
    since₄.later.holds holds, still⟩).since
    there₄

/-- The shared table that is made here. -/
theorem emitTable_ends (hl : l.Walks s) (moment : Moment s w) {root : DeclId} {array : TyId}
    {length : Nat} {methods : List (Name × DeclId)} {c : ClassDecl}
    (virtuals : s.program.namedVirtuals root = .ok methods)
    (isClass : s.program.classDecl root = .ok c)
    (isLength : length = c.tableSize.getD (s.config.tableHeader + methods.length))
    (enough : s.config.tableHeader + methods.length ≤ length)
    (own : s.resolver.tableSymbol s.program root = none) (new : w.tables.get? root = none)
    (isArray : w.code.types.get array = .array .ptr length) :
    Ends s w (emitTable l root array length methods) fun t w' =>
      t.root = root ∧ t.Fits s ∧ t.Made s w' ∧ w'.tables.get? root = some t := by
  rw [emitTable_eq]
  have opened := openTable_ends moment virtuals isClass isLength enough own new isArray
  refine Since.ends (.after opened (.refl w) fun result w₁ since₁ made => ?_)
  obtain ⟨t, entries⟩ := result
  obtain ⟨isRoot, fits, made, recorded, _, pending⟩ := made
  refine (defineThunks_since hl root _ since₁ (moment.later since₁.later) pending).bind ?_
  intro _ w₂ there₂ later
  exact (Ends.pure ⟨isRoot, fits, later.made made, later.table recorded⟩).since there₂

/-- The shared table of a class has the form that the program and the configuration ask for. -/
theorem tableOf_ends (hl : l.Walks s) (moment : Moment s w) (root : DeclId) :
    Ends s w (tableOf l root) fun t w' =>
      t.root = root ∧ t.Fits s ∧ t.Made s w' ∧ w'.tables.get? root = some t := by
  refine .get_bind ?_
  split
  · rename_i t known
    obtain ⟨isRoot, fits, made⟩ := moment.table_made root t known
    exact .pure ⟨isRoot, fits, made, known⟩
  · rename_i new
    refine .read_bind (asks_bind fun methods virtuals => asks_bind fun c isClass => ?_)
    dsimp only
    split
    · refine ((declName_walks root).ends moment).bind fun _ w₁ _ _ => ?_
      exact Ends.bind (Q := fun _ _ => False) (.throw trivial) fun _ _ _ never => never.elim
    · rename_i enough
      refine Ends.bind (Q := fun array w' => w'.code.types.get array = .array .ptr _ ∧
        w'.tables = w.tables) (intern_ends (fun _ => rfl) ⟨TypeTable.get_intern _ _, rfl⟩) ?_
      rintro array w₁ there₁ ⟨isArray, same⟩
      have moment₁ := moment.later there₁.later
      rw [← same] at new
      cases symbol : s.resolver.tableSymbol s.program root with
      | none =>
        exact emitTable_ends hl moment₁ virtuals isClass rfl (Nat.le_of_not_lt enough)
          symbol new isArray
      | some name =>
        refine ((declareGlobal_ends _ _ _ _).recorded (.code _)).bind fun g w₂ _ named => ?_
        obtain ⟨named, same₂⟩ := named
        have fits : MethodTable.Fits s ⟨root, g, array, _, s.config.tableHeader, methods, true⟩ :=
          ⟨rfl, virtuals, ⟨c, isClass, rfl⟩, Nat.le_of_not_lt enough, by simp [symbol]⟩
        have made : MethodTable.Made s w₂ ⟨root, g, array,
            c.tableSize.getD (s.config.tableHeader + methods.length), s.config.tableHeader, methods,
            true⟩ := by
          refine ⟨by simp, fun symbol' isSymbol => ?_⟩
          obtain rfl : name = symbol' := Option.some.inj (symbol.symm.trans isSymbol)
          exact named
        rw [← (Prod.mk.inj same₂).2] at new
        have step := Step.table fits made new
        exact .modify_bind step ⟨rfl, rfl, rfl, rfl, rfl⟩
          (.pure ⟨rfl, fits, step.later.made made, Table.get?_insert_self _ _ _⟩)

theorem tableOf_walks (hl : l.Walks s) (root : DeclId) : Walks s (tableOf l root) :=
  ⟨fun moment => (tableOf_ends hl moment root).mono fun _ _ _ _ => trivial⟩

theorem checkOverride_walks (t : MethodTable) (cls m : DeclId) :
    Walks s (checkOverride t cls m) :=
  .bind (asks_walks _) fun _ => .ite (.bind (.mapM (fun (n, _) => text_walks n) _) fun _ =>
    .bind (declName_walks _) fun _ => .bind (text_walks _) fun _ => fail_walks trivial) (.pure _)

/-- What stands for an overriding method in a table: what was made before, or a function that calls
the closure at the position given. -/
theorem trampoline_ends (moment : Moment s w) {cls m : DeclId} {n : Name} {t : MethodTable}
    {overrides : List (Name × DeclId × Nat)} {slot k : Nat} {c : CompiledFunction}
    (overriding : Overriding s cls t overrides) (here : overrides[k]? = some (n, m, slot))
    (bound : w.registry.declEnv? m = some c.env) :
    Ends s w (trampoline cls n c (t.length + k)) fun func w' =>
      w'.overrides.get? (cls, n) = some func := by
  refine .get_bind ?_
  split
  · rename_i found known
    exact .pure known
  · refine Since.ends (.after (layoutOf_ends moment cls) (.refl w) fun layout w₁ since₁ _ => ?_)
    refine .env_bind since₁ fun e isEnv => ?_
    have moment₁ := moment.later since₁.later
    refine .after ((declName_walks cls).ends moment₁) since₁ fun _ w₂ since₂ _ => ?_
    have there₂ := since₁.trans since₂
    refine .after ((text_walks n).ends (moment₁.later since₂.later)) there₂ fun _ w₃ since₃ _ => ?_
    have there₃ := there₂.trans since₃
    dsimp only
    refine .after (declareCompiled_ends _ _) there₃ fun func w₄ since₄ made => ?_
    obtain ⟨_, new, name, declared⟩ := made
    have there₄ := there₃.trans since₄
    refine .after (Q := fun rt w' => rt = s.runtime ∧ w' = w₄) ⟨.refl w₄, rfl, rfl⟩ there₄ ?_
    rintro _ _ - ⟨rfl, rfl⟩
    refine .define_bind there₄ (there₃.not_there new) declared rfl
      fun w₅ there₅ later₅ _ defined => ?_
    have later : Later s w₁ w₅ := ((since₂.trans since₃).trans since₄).later.trans later₅
    have replacing : Replacing s w₅ cls n func := .mk overriding here
      ((since₁.later.trans later).extends.registry.declEnv _ _ bound)
      (later.extends.registry.env _ _ isEnv) defined
    refine Ends.since there₅ (.modify_bind (.override replacing)
      ⟨rfl, rfl, rfl, rfl, rfl⟩ (.pure ?_))
    exact Table.get?_insert_self _ _ _

end Compile

namespace Emit

variable {s : Setup} {w : Work} {l : Lowering}

theorem copyTable_walks (table copy : ValueId) (length : Nat) :
    Walks s (copyTable table copy length) :=
  .forM (fun i => .bind (index_walks i) fun _ => .draft_bind fun _ => .draft_bind fun _ =>
    .draft_bind fun _ => .draft _) _

/-- The entry of a method that is overridden is replaced. -/
theorem patchSlot_walks (hl : l.Walks s) {cls m : DeclId} {n : Name} {t : MethodTable}
    {overrides : List (Name × DeclId × Nat)} {slot k : Nat}
    (overriding : Overriding s cls t overrides) (here : overrides[k]? = some (n, m, slot))
    (obj copy : ValueId) : Walks s (patchSlot l cls obj copy n m slot (t.length + k)) := by
  refine ⟨fun {w f} moment grounded => ?_⟩
  refine bind_ends (lift_ends (f := f) (Q := fun r w' => r.2 = f ∧
    w'.registry.declEnv? m = some r.1.env ∧ w'.Made r.1) ?_) ?_
  · refine (hl.body moment (.function m) (some cls) []).mono fun c w' there compiled => ⟨rfl, ?_⟩
    obtain ⟨key, isSubject, _, recorded⟩ := compiled
    have := ((moment.later there.later).function_made key c recorded).1
    rw [isSubject] at this
    exact ⟨this, key, recorded⟩
  · rintro c _ w₁ there₁ ⟨rfl, bound, made⟩
    have moment₁ := moment.later there₁.later
    refine bind_ends (closureOf_ends moment₁ (grounded.later there₁.later) made m (some obj)) ?_
    intro closure f₂ w₂ there₂ onward₂
    have moment₂ := moment₁.later there₂.later
    refine bind_ends (lift_ends (Q := fun r w' => Frame.Onward _ w' r.2)
      ((Compile.trampoline_ends moment₂ overriding here
        (there₂.later.extends.registry.declEnv _ _ bound)).mono fun _ _ there _ =>
          onward₂.later there.later)) ?_
    intro func f₃ w₃ there₃ onward₃
    have rest : Walks s (do
        let held ← elemAddr copy (t.length + k) "vclosure"
        Draft.store closure.ptr held
        let entry ← elemAddr copy slot "vslot"
        let code ← Draft.funcAddr func
        Draft.store code entry : Emit Unit) :=
      .bind (elemAddr_walks _ _ _) fun _ => .draft_bind fun _ =>
          .bind (elemAddr_walks _ _ _) fun _ =>
        .draft_bind fun _ => .draft _
    exact (rest.ends (moment₂.later there₃.later) onward₃.grounded).mono fun _ _ _ last =>
      onward₃.trans last

theorem placeTable_walks (hl : l.Walks s) {cls : DeclId} {t : MethodTable}
    {overrides : List (Name × DeclId × Nat)} (overriding : Overriding s cls t overrides)
    (obj : ValueId) : Walks s (placeTable l obj cls t overrides) := by
  refine .bind (.lift (Compile.layoutOf_walks cls)) fun layout => .draft_bind fun table =>
    .ite (storeField_walks _ _ _ _) ?_
  refine .bind (.lift (Compile.array_walks _ _)) fun own =>
    .draft_bind fun copy => .bind (copyTable_walks _ _ _) fun _ =>
      .bind (storeField_walks _ _ _ _) fun _ => .forM_mem _ ?_
  rintro ⟨⟨n, m, slot⟩, closureSlot⟩ inside
  obtain ⟨atLeast, here⟩ := List.mk_mem_zipIdx_iff_le_and_getElem?_sub.mp inside
  obtain ⟨k, rfl⟩ := Nat.exists_eq_add_of_le atLeast
  rw [Nat.add_sub_cancel_left] at here
  exact patchSlot_walks hl overriding here obj copy

/-- Every method of the classes below the root is checked against the table. -/
theorem checkOverrides_walks (t : MethodTable) (chain : List DeclId) :
    Walks s ((chain.takeWhile (· ≠ t.root)).forM fun c => do
      (← Compile.asks (·.ownFunctions c .method)).forM fun m => Compile.checkOverride t c m :
      Emit Unit) :=
  .forM (fun c => .bind (.asks _) fun _ => .forM
    (fun m => .lift (Compile.checkOverride_walks t c m)) _) _

theorem installTable_walks (hl : l.Walks s) (obj : ValueId) (cls : DeclId) :
    Walks s (installTable l obj cls) := by
  refine ⟨fun {w f} moment grounded => asks_bind fun found isRoot => ?_⟩
  cases found with
  | none => exact .pure ⟨grounded, rfl⟩
  | some root =>
    refine bind_ends (lift_ends (Q := fun r w' => f.Onward w' r.2 ∧ r.1.root = root ∧ r.1.Fits s)
      ((Compile.tableOf_ends hl moment root).mono fun t w' there made =>
        ⟨⟨grounded.later there.later, rfl⟩, made.1, made.2.1⟩)) ?_
    rintro t f₁ w₁ there₁ ⟨onward₁, rfl, fits⟩
    have moment₁ := moment.later there₁.later
    refine asks_bind fun chain isChain => ?_
    refine bind_ends ((checkOverrides_walks t chain).ends moment₁ onward₁.grounded)
      fun _ f₂ w₂ there₂ onward₂ => ?_
    have moment₂ := moment₁.later there₂.later
    refine asks_bind fun overrides listed => ?_
    have overriding : Overriding s cls t overrides := ⟨isRoot, fits, chain, isChain, listed⟩
    exact ((placeTable_walks hl overriding obj).ends moment₂ onward₂.grounded).mono
      fun _ _ _ last => (onward₁.trans onward₂).trans last

theorem virtualSlot_walks (hl : l.Walks s) (cls m : DeclId) : Walks s (virtualSlot l cls m) := by
  refine .bind (.asks _) fun root => ?_
  cases root with
  | none => exact .pure _
  | some root =>
    exact .bind (.asks _) fun _ => .bind (.asks _) fun _ =>
      .ite (.bind (.lift (Compile.tableOf_walks hl root)) fun _ => .pure _) (.pure _)

theorem virtualBody_walks (hl : l.Walks s) (cls m : DeclId) :
    Compile.Walks s (virtualBody l cls m) :=
  .bind (Compile.resolve_walks _ _ _) fun _ => .ite (.pure _)
    (.bind (hl.body_walks _ _ _) fun _ => .pure _)

theorem callSlot_walks (cls : DeclId) (this : ValueId) (slot : Nat) (values : List ValueId) :
    Walks s (callSlot cls this slot values) := by
  refine .bind (.lift (Compile.layoutOf_walks cls)) fun _ =>
      .bind (loadField_walks _ _ _ _) fun _ =>
    .bind (elemAddr_walks _ _ _) fun _ => .draft_bind fun _ =>
      .bind (.lift (Compile.func_walks _ _)) fun _ =>
        .draft_bind fun result => ?_
  split
  · exact .pure _
  · exact .draft _

theorem virtualCall_walks (hl : l.Walks s) (object : Operand) (cls m : DeclId) (slot : Nat)
    (args : List Operand) : Walks s (virtualCall l object cls m slot args) := by
  refine .bind (.asks _) fun f => .bind (.lift (virtualBody_walks hl cls m)) fun c =>
    .bind (boxed_walks object) fun this => .bind (.mapM ?_ _) fun values => ?_
  · rintro ⟨d, i⟩
    dsimp only
    split
    · exact .bind (.pure _) fun _ => hl.argument _ _
    · exact .bind (.asks _) fun _ => .bind (closedInfoOf_walks _) fun _ => hl.argument _ _
  · dsimp only
    split
    · exact .bind (.pure _) fun _ => .bind (callSlot_walks _ _ _ _) fun _ => .pure _
    · exact .bind (closedInfoOf_walks _) fun _ => .bind (callSlot_walks _ _ _ _) fun _ => .pure _
    · exact .bind (.pure _) fun _ => .bind (callSlot_walks _ _ _ _) fun _ => .pure _

end Emit

end ShapeCompiler
