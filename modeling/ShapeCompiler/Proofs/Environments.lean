import Mathlib.Data.List.Forall2
import ShapeCompiler.Source.Construction
import ShapeCompiler.Proofs.Captures
import ShapeCompiler.Proofs.Moments

/-!
# The form of environments

* `Environment.Formed`: the order, the names and the sources of the slots of a declaration's
  environment;
* `LaidOut.formed`: what is laid out has that form;
* `Work.Moment.formed`: every environment of a declaration has it, at every moment;
* `Work.Moment.keys_nodup`: its slots are distinct, if no parameter is listed twice.

The environment around a declaration is registered before its own, so the induction is on the
steps of the compilation and needs no depth of nesting.
-/

namespace ShapeCompiler

open Source Code Work

/-! ## Parameters -/

namespace Source.Program

variable {p : Program} {d : DeclId}

/-- The parameters of a function; those of a class are the ones its constructor takes if it writes
none. -/
def formals (p : Program) (d : DeclId) : Except ProgramError (List DeclId) := do
  match (← p.decl d).kind with
  | .function f => return f.params
  | _ => p.forwardedParams d

/-- The parameters that a declaration lists. -/
def paramsOf : DeclKind → List DeclId
  | .function f => f.params
  | _ => []

/-- No declaration lists a parameter twice. -/
def DistinctParams (p : Program) : Prop := ∀ decl ∈ p.decls.toList, (paramsOf decl.kind).Nodup

instance (p : Program) : Decidable p.DistinctParams :=
  inferInstanceAs (Decidable (∀ decl ∈ p.decls.toList, (paramsOf decl.kind).Nodup))

theorem decl_of_function {f : FunctionDecl} (h : p.function d = .ok f) :
    ∃ decl, p.decl d = .ok decl ∧ decl.kind = .function f := by
  obtain ⟨decl, known, h⟩ := exists_of_bind_ok h
  split at h
  · rename_i isFunction
    cases h
    exact ⟨decl, known, isFunction⟩
  · cases h

theorem DistinctParams.function {f : FunctionDecl} (distinct : p.DistinctParams)
    (h : p.function d = .ok f) : f.params.Nodup := by
  obtain ⟨decl, known, kind⟩ := decl_of_function h
  have member : decl ∈ p.decls.toList := by
    unfold Program.decl at known
    split at known
    · rename_i there
      cases known
      exact Array.mem_toList_iff.mpr (Array.mem_of_getElem? there)
    · cases known
  simpa [paramsOf, kind] using distinct decl member

theorem decl_of_classDecl {c : ClassDecl} (h : p.classDecl d = .ok c) :
    ∃ decl, p.decl d = .ok decl ∧ decl.kind = .classDecl c := by
  obtain ⟨decl, known, h⟩ := exists_of_bind_ok h
  split at h
  · rename_i isClass
    cases h
    exact ⟨decl, known, isClass⟩
  · cases h

theorem classDecl_of_forwardedParams {params : List DeclId}
    (h : p.forwardedParams d = .ok params) : ∃ c, p.classDecl d = .ok c := by
  obtain ⟨chain, isChain, _⟩ := exists_of_bind_ok h
  obtain ⟨c, isClass, _⟩ := exists_of_bind_ok isChain
  exact ⟨c, isClass⟩

/-- Forwarded parameters are those of some constructor. -/
theorem nearestConstructorParams_nodup (distinct : p.DistinctParams) (chain : List DeclId)
    {params : List DeclId} (h : p.nearestConstructorParams chain = .ok params) :
    params.Nodup := by
  induction chain with
  | nil =>
    cases h
    exact .nil
  | cons c rest ih =>
    obtain ⟨own, _, h⟩ := exists_of_bind_ok h
    cases own with
    | some ctor =>
      obtain ⟨f, known, h⟩ := exists_of_bind_ok h
      cases h
      exact distinct.function known
    | none => exact ih h

theorem forwardedParams_nodup (distinct : p.DistinctParams) {params : List DeclId}
    (h : p.forwardedParams d = .ok params) : params.Nodup := by
  obtain ⟨chain, _, h⟩ := exists_of_bind_ok h
  exact nearestConstructorParams_nodup distinct chain h

end Source.Program

namespace EnvPlan.For

variable {p : Program} {owner : DeclId} {plan : EnvPlan}

theorem formals (h : EnvPlan.For p owner plan) : p.formals owner = .ok plan.params := by
  cases h with
  | function isFunction =>
    obtain ⟨decl, known, kind⟩ := Program.decl_of_function isFunction
    simp [Program.formals, known, kind, Bind.bind, Except.bind, pure, Except.pure]
  | constructor forwarded =>
    obtain ⟨c, isClass⟩ := Program.classDecl_of_forwardedParams forwarded
    obtain ⟨decl, known, kind⟩ := Program.decl_of_classDecl isClass
    simp [Program.formals, known, kind, Bind.bind, Except.bind, forwarded]

theorem nodup (h : EnvPlan.For p owner plan) (distinct : p.DistinctParams) :
    plan.params.Nodup := by
  cases h with
  | function isFunction => exact distinct.function isFunction
  | constructor forwarded => exact Program.forwardedParams_nodup distinct forwarded

/-- A body declares its parameters. -/
theorem params_declared (h : EnvPlan.For p owner plan) {free : FreeNames}
    (known : p.freeNames plan.subject = .ok free) : ∀ d ∈ plan.params, d ∈ free.decls := by
  cases h with
  | @function f isFunction =>
    obtain ⟨f', isFunction', known⟩ := exists_of_bind_ok known
    obtain rfl : f = f' := Except.ok.inj (isFunction.symm.trans isFunction')
    obtain ⟨_, _, known⟩ := exists_of_bind_ok known
    obtain ⟨_, _, known⟩ := exists_of_bind_ok known
    cases known
    exact fun d member => List.mem_append_left _ member
  | @constructor params forwarded =>
    obtain ⟨params', forwarded', known⟩ := exists_of_bind_ok known
    obtain rfl : params = params' := Except.ok.inj (forwarded.symm.trans forwarded')
    obtain ⟨_, _, known⟩ := exists_of_bind_ok known
    obtain ⟨_, _, known⟩ := exists_of_bind_ok known
    cases known
    exact fun d member => member

end EnvPlan.For

/-! ## Slots that are taken over -/

/-- What a slot is known by. -/
def EnvSlot.key (slot : EnvSlot) : SlotName × Option DeclId := (slot.name, slot.var)

/-- The slot, as it is taken over from around. -/
def EnvSlot.takenOver (slot : EnvSlot) : EnvSlot := { slot with origin := .outer }

@[simp] theorem EnvSlot.key_takenOver (slot : EnvSlot) : slot.takenOver.key = slot.key := rfl

theorem EnvSlot.same_iff (a b : EnvSlot) : a.same b = true ↔ a.key = b.key := by
  simp [EnvSlot.same, EnvSlot.key]

theorem any_same_iff (slots : List EnvSlot) (slot : EnvSlot) :
    slots.any slot.same = true ↔ slot.key ∈ slots.map EnvSlot.key := by
  simp only [List.any_eq_true, EnvSlot.same_iff, List.mem_map]
  constructor
  · rintro ⟨other, inside, same⟩
    exact ⟨other, inside, same.symm⟩
  · rintro ⟨other, inside, same⟩
    exact ⟨other, inside, same.symm⟩

/-- Some of the slots around are put behind the own ones, in order. -/
theorem addOuter_taken (slots : List EnvSlot) (around : List (Nat × EnvSlot)) :
    ∃ taken : List (Nat × EnvSlot), taken.Sublist around ∧
      addOuter slots around = (slots ++ taken.map (·.2.takenOver),
        (taken.zipIdx slots.length).map fun t => (t.2, t.1.1)) := by
  induction around generalizing slots with
  | nil => exact ⟨[], .slnil, by simp [addOuter]⟩
  | cons head rest ih =>
    obtain ⟨i, slot⟩ := head
    unfold addOuter
    split
    · obtain ⟨taken, sub, merged⟩ := ih slots
      exact ⟨taken, sub.cons _, merged⟩
    · obtain ⟨taken, sub, merged⟩ := ih (slots ++ [{ slot with origin := .outer }])
      refine ⟨(i, slot) :: taken, sub.cons_cons _, ?_⟩
      simp [merged, EnvSlot.takenOver]

theorem addOuter_nodup {slots : List EnvSlot} (around : List (Nat × EnvSlot))
    (distinct : (slots.map EnvSlot.key).Nodup) :
    ((addOuter slots around).1.map EnvSlot.key).Nodup := by
  induction around generalizing slots with
  | nil => exact distinct
  | cons head rest ih =>
    obtain ⟨i, slot⟩ := head
    unfold addOuter
    split
    · exact ih distinct
    · rename_i new
      rw [any_same_iff] at new
      refine ih ?_
      rw [List.map_append]
      refine distinct.append (by simp) ?_
      intro key old here
      obtain rfl : key = slot.key := by simpa [EnvSlot.key] using here
      exact new old

theorem addOuter_covers (slots : List EnvSlot) (around : List (Nat × EnvSlot)) :
    ∀ entry ∈ around, entry.2.key ∈ (addOuter slots around).1.map EnvSlot.key := by
  induction around generalizing slots with
  | nil => simp
  | cons head rest ih =>
    obtain ⟨i, slot⟩ := head
    -- whatever is among the own slots is among all slots
    have stays (own : List EnvSlot) (key) (here : key ∈ own.map EnvSlot.key) :
        key ∈ (addOuter own rest).1.map EnvSlot.key := by
      obtain ⟨taken, _, merged⟩ := addOuter_taken own rest
      rw [merged, List.map_append]
      exact List.mem_append_left _ here
    intro entry inside
    unfold addOuter
    split
    · rename_i old
      rcases List.mem_cons.mp inside with rfl | later
      · exact stays slots _ ((any_same_iff _ _).mp old)
      · exact ih slots entry later
    · rcases List.mem_cons.mp inside with rfl | later
      · exact stays _ _ (by simp [EnvSlot.key])
      · exact ih _ entry later

theorem mem_indexedSlots {e : Environment} {i : Nat} {slot : EnvSlot} :
    (i, slot) ∈ e.indexedSlots ↔ e.slots[i]? = some slot := by
  simp only [Environment.indexedSlots, List.mem_map, Prod.mk.injEq, Prod.exists]
  constructor
  · rintro ⟨a, j, inside, rfl, rfl⟩
    exact List.mem_zipIdx_iff_getElem?.mp inside
  · intro here
    exact ⟨slot, i, List.mem_zipIdx_iff_getElem?.mpr here, rfl, rfl⟩

/-! ## The form -/

/-- The numbers of the slots that are taken over. -/
def Environment.outerSlots (e : Environment) : List Nat :=
  (e.indexedSlots.filter (·.2.origin = .outer)).map (·.1)

/-- The slots of some origins in a row: captured variables, at most one receiver, and what is taken
over. -/
inductive TailOrder : List EnvSlot → Prop where
  | mk {captures receivers outers : List EnvSlot} (captured : ∀ s ∈ captures, s.origin = .capture)
    (one : receivers.length ≤ 1) (receiver : ∀ s ∈ receivers, s.origin = .receiver)
    (outer : ∀ s ∈ outers, s.origin = .outer) : TailOrder (captures ++ receivers ++ outers)

/-- The slot of a number holds the same as one of the environment around. -/
structure Environment.Fed (r : Registry) (e : Environment) (i j : Nat) : Prop where
  fed : ∃ id around a b, e.outer = some id ∧ r.env? id = some around ∧
    e.slots[i]? = some a ∧ around.slots[j]? = some b ∧
    a.name = b.name ∧ a.var = b.var ∧ a.info = b.info

/-- The form of the environment of a declaration. -/
structure Environment.Formed (p : Program) (w : Work) (d : DeclId) (e : Environment) : Prop where
  formals : ∃ params, p.formals d = .ok params ∧
    List.Forall₂ (EnvSlot.OfParam p) params (e.slots.take e.paramCount)
  order : TailOrder (e.slots.drop e.paramCount)
  count : e.paramCount = (e.slots.filter (·.origin = .param)).length
  remap : e.remap.map (·.1) = e.outerSlots
  fed : ∀ i j, (i, j) ∈ e.remap → e.Fed w.registry i j
  covers : ∀ id, e.outer = some id → ∃ around, w.registry.env? id = some around ∧
    ∀ b ∈ around.slots, ∃ a ∈ e.slots, a.key = b.key
  record : w.code.types.fields? e.record = some (List.replicate e.slots.length .ptr)

theorem Environment.Formed.later {s : Setup} {w w' : Work} {d : DeclId} {e : Environment}
    (h : e.Formed s.program w d) (later : Later s w w') : e.Formed s.program w' d := by
  refine { h with fed := ?_, covers := ?_, record := later.fields? h.record }
  · intro i j here
    obtain ⟨id, around, a, b, outer, known, rest⟩ := (h.fed i j here).fed
    exact ⟨id, around, a, b, outer, later.extends.registry.env _ _ known, rest⟩
  · intro id outer
    obtain ⟨around, known, all⟩ := h.covers id outer
    exact ⟨around, later.extends.registry.env _ _ known, all⟩

/-! ## What is laid out -/

theorem vars_of_formals {p : Program} {params : List DeclId} {slots : List EnvSlot}
    (h : List.Forall₂ (EnvSlot.OfParam p) params slots) :
    slots.map (·.var) = params.map some := by
  induction h with
  | nil => rfl
  | cons one _ ih => simp [one.var, ih]

theorem formal_of_mem {p : Program} {params : List DeclId} {slots : List EnvSlot} {slot : EnvSlot}
    (h : List.Forall₂ (EnvSlot.OfParam p) params slots) (inside : slot ∈ slots) :
    ∃ d ∈ params, EnvSlot.OfParam p d slot := by
  induction h with
  | nil => cases inside
  | @cons d slot' _ _ one _ ih =>
    rcases List.mem_cons.mp inside with rfl | later
    · exact ⟨d, by simp, one⟩
    · obtain ⟨d', member, here⟩ := ih later
      exact ⟨d', by simp [member], here⟩

/-- The own slots are distinct: a captured variable is no parameter, and only the receiver goes
without a name. -/
theorem ownSlots_nodup {p : Program} {plan : EnvPlan} {params : List EnvSlot} {found : Gathered}
    {free : FreeNames} (site : Site) (distinct : plan.params.Nodup)
    (formals : List.Forall₂ (EnvSlot.OfParam p) plan.params params)
    (declared : ∀ d ∈ plan.params, d ∈ free.decls) (apart : found.Apart free) :
    ((plan.ownSlots site params found).map EnvSlot.key).Nodup := by
  have vars := vars_of_formals formals
  have paramKeys : (params.map EnvSlot.key).Nodup := by
    have : ((params.map EnvSlot.key).map (·.2)).Nodup := by
      simpa [EnvSlot.key, Function.comp_def, vars] using distinct.map fun _ _ => Option.some.inj
    exact this.of_map _
  have captureKeys : ((EnvPlan.captureSlots found).map EnvSlot.key).Nodup := by
    have keys : (EnvPlan.captureSlots found).map EnvSlot.key =
        (found.captures.map fun c => (c.name, c.var)).map fun k => (SlotName.named k.1, k.2) := by
      simp [EnvPlan.captureSlots, EnvSlot.key, Function.comp_def]
    rw [keys]
    refine apart.distinct.map ?_
    rintro ⟨n, v⟩ ⟨n', v'⟩ same
    simpa using same
  unfold EnvPlan.ownSlots
  rw [List.map_append, List.map_append]
  refine (paramKeys.append captureKeys ?_).append ?_ ?_
  · intro key isParam isCapture
    obtain ⟨s, inside, rfl⟩ := List.mem_map.mp isParam
    obtain ⟨c, captured, same⟩ := List.mem_map.mp isCapture
    obtain ⟨d, member, formal⟩ := formal_of_mem formals inside
    obtain ⟨x, isCaptured, rfl⟩ := List.mem_map.mp captured
    have var : x.var = some d := (congrArg Prod.snd same).trans formal.var
    exact apart.notLocal x isCaptured d var (declared d member)
  · unfold EnvPlan.receiverSlots
    split <;> simp
  · intro key own isReceiver
    have name : key.1 = .receiver := by
      obtain ⟨s, inside, rfl⟩ := List.mem_map.mp isReceiver
      unfold EnvPlan.receiverSlots at inside
      split at inside
      · obtain rfl := List.mem_singleton.mp inside
        rfl
      · simp at inside
    rcases List.mem_append.mp own with isParam | isCapture
    · obtain ⟨s, inside, rfl⟩ := List.mem_map.mp isParam
      obtain ⟨d, _, formal⟩ := formal_of_mem formals inside
      obtain ⟨decl, _, named⟩ := formal.name
      simp [EnvSlot.key, named] at name
    · obtain ⟨s, inside, rfl⟩ := List.mem_map.mp isCapture
      obtain ⟨x, _, rfl⟩ := List.mem_map.mp inside
      cases name

/-- A part of a list whose members all have an origin is kept whole or dropped. -/
theorem filter_origin {slots : List EnvSlot} {o : SlotOrigin} (all : ∀ s ∈ slots, s.origin = o)
    (o' : SlotOrigin) :
    slots.filter (·.origin = o') = if o = o' then slots else [] := by
  split
  · rename_i same
    exact List.filter_eq_self.mpr fun s inside => by simp [all s inside, same]
  · rename_i apart
    exact List.filter_eq_nil_iff.mpr fun s inside => by simp [all s inside, apart]

theorem captureSlots_origin (found : Gathered) :
    ∀ s ∈ EnvPlan.captureSlots found, s.origin = .capture := by
  intro s inside
  obtain ⟨c, _, rfl⟩ := List.mem_map.mp inside
  rfl

theorem receiverSlots_origin (plan : EnvPlan) (site : Site) (found : Gathered) :
    (plan.receiverSlots site found).length ≤ 1 ∧
      ∀ s ∈ plan.receiverSlots site found, s.origin = .receiver := by
  unfold EnvPlan.receiverSlots
  split <;> simp

/-- The slots that are taken over stand behind the others. -/
theorem outerSlots_append {e : Environment} {own outers : List EnvSlot}
    (slots : e.slots = own ++ outers) (notOuter : ∀ s ∈ own, s.origin ≠ .outer)
    (outer : ∀ s ∈ outers, s.origin = .outer) :
    e.outerSlots = (outers.zipIdx own.length).map (·.2) := by
  have ownPart : (own.zipIdx.map fun t => (t.2, t.1)).filter (·.2.origin = .outer) = [] := by
    refine List.filter_eq_nil_iff.mpr ?_
    intro entry inside
    obtain ⟨⟨s, i⟩, here, rfl⟩ := List.mem_map.mp inside
    simpa using notOuter s (List.fst_mem_of_mem_zipIdx here)
  have outerPart (n : Nat) : ((outers.zipIdx n).map fun t => (t.2, t.1)).filter
      (·.2.origin = .outer) = (outers.zipIdx n).map fun t => (t.2, t.1) := by
    refine List.filter_eq_self.mpr ?_
    intro entry inside
    obtain ⟨⟨s, i⟩, here, rfl⟩ := List.mem_map.mp inside
    simpa using outer s (List.fst_mem_of_mem_zipIdx here)
  simp only [Environment.outerSlots, Environment.indexedSlots, slots, List.zipIdx_append,
    List.map_append, List.filter_append]
  rw [ownPart, outerPart]
  simp [Function.comp_def]

theorem around_of_outer {site : Site} {r : Registry} {id : EnvId} {around : Environment}
    (outer : site.outer = some id) (known : r.env? id = some around) :
    site.around r = around.indexedSlots := by
  simp [Site.around, outer, known]

theorem outer_of_mem_around {site : Site} {r : Registry} {j : Nat} {b : EnvSlot}
    (inside : (j, b) ∈ site.around r) :
    ∃ id around, site.outer = some id ∧ r.env? id = some around ∧ around.slots[j]? = some b := by
  unfold Site.around at inside
  cases found : site.outer.bind r.env? with
  | none => simp [found] at inside
  | some around =>
    obtain ⟨id, outer, known⟩ := Option.bind_eq_some_iff.mp found
    rw [found, Option.elim_some] at inside
    exact ⟨id, around, outer, known, mem_indexedSlots.mp inside⟩

/-- Each entry that is listed belongs to the slot that it names. -/
theorem fed_of_taken {own : List EnvSlot} {taken : List (Nat × EnvSlot)} {i j : Nat}
    (here : (i, j) ∈ (taken.zipIdx own.length).map fun t => (t.2, t.1.1)) :
    ∃ b, (j, b) ∈ taken ∧ (own ++ taken.map (·.2.takenOver))[i]? = some b.takenOver := by
  obtain ⟨⟨⟨j, b⟩, i⟩, listed, same⟩ := List.mem_map.mp here
  cases same
  obtain ⟨behind, at'⟩ := List.mem_zipIdx_iff_le_and_getElem?_sub.mp listed
  refine ⟨b, List.mem_of_getElem? at', ?_⟩
  rw [List.getElem?_append_right behind, List.getElem?_map, at']
  rfl

/-- What is laid out has the form. -/
theorem LaidOut.formed {s : Setup} {w : Work} {e : Environment} {d : DeclId}
    (h : LaidOut s w e) (owned : e.owner = some d) : e.Formed s.program w d := by
  obtain @⟨owner, plan, site, survey, found, params, slots, remap, name, record, planned, free,
    gathered, formals, outer, merged, fields⟩ := h
  obtain rfl : owner = d := Option.some.inj owned
  obtain ⟨taken, sub, taking⟩ := addOuter_taken (plan.ownSlots site params found)
    (site.around w.registry)
  rw [merged, Prod.mk.injEq] at taking
  have length : params.length = plan.params.length := formals.length_eq.symm
  have isParam : ∀ s ∈ params, s.origin = .param := by
    intro s inside
    obtain ⟨_, _, formal⟩ := formal_of_mem formals inside
    exact formal.origin
  have isCapture := captureSlots_origin found
  obtain ⟨one, isReceiver⟩ := receiverSlots_origin plan site found
  have isOuter : ∀ s ∈ taken.map (·.2.takenOver), s.origin = .outer := by
    intro s inside
    obtain ⟨t, _, rfl⟩ := List.mem_map.mp inside
    rfl
  have parts : slots = params ++ (EnvPlan.captureSlots found ++ plan.receiverSlots site found ++
      taken.map (·.2.takenOver)) := by
    simp [taking.1, EnvPlan.ownSlots]
  constructor
  case formals =>
    refine ⟨plan.params, planned.formals, ?_⟩
    simpa [parts, ← length] using formals
  case order =>
    simp only [parts, ← length, List.drop_left]
    exact .mk isCapture one isReceiver isOuter
  case count =>
    simp only [parts, List.filter_append]
    rw [filter_origin isParam, filter_origin isCapture, filter_origin isReceiver,
      filter_origin isOuter]
    simp [length]
  case remap =>
    have notOuter : ∀ s ∈ plan.ownSlots site params found, s.origin ≠ .outer := by
      intro s inside
      simp only [EnvPlan.ownSlots, List.mem_append] at inside
      rcases inside with (here | here) | here
      · simp [isParam s here]
      · simp [isCapture s here]
      · simp [isReceiver s here]
    rw [outerSlots_append taking.1 notOuter isOuter, taking.2]
    simp [List.zipIdx_map, Function.comp_def]
  case fed =>
    intro i j here
    simp only [taking.2] at here
    obtain ⟨b, isTaken, at'⟩ := fed_of_taken here
    obtain ⟨id, around, isOuter, known, there⟩ := outer_of_mem_around (sub.subset isTaken)
    exact ⟨id, around, b.takenOver, b, isOuter, known, by rw [← at', taking.1],
      there, rfl, rfl, rfl⟩
  case covers =>
    intro id isOuter
    obtain ⟨around, known⟩ := Option.isSome_iff_exists.mp (outer id isOuter)
    refine ⟨around, known, fun b inside => ?_⟩
    obtain ⟨j, at'⟩ := List.mem_iff_getElem?.mp inside
    have listed := mem_indexedSlots.mpr at'
    rw [← around_of_outer isOuter known] at listed
    have covered := addOuter_covers (plan.ownSlots site params found) _ _ listed
    simpa [merged] using covered
  case record => exact fields

/-- No two slots hold the same variable under the same name. -/
theorem LaidOut.keys_nodup {s : Setup} {w : Work} {e : Environment} (h : LaidOut s w e)
    (distinct : s.program.DistinctParams) : (e.slots.map EnvSlot.key).Nodup := by
  obtain @⟨owner, plan, site, survey, found, params, slots, remap, name, record, planned, free,
    gathered, formals, outer, merged, fields⟩ := h
  have own := ownSlots_nodup site (planned.nodup distinct) formals
    (planned.params_declared free) (survey.gather_apart gathered)
  simpa [merged] using addOuter_nodup (site.around w.registry) own

/-! ## Every moment -/

namespace Work.Moment

variable {s : Setup} {w : Work}

/-- What holds of every environment that is laid out, and stays, holds at every moment of all
environments that belong to a declaration. -/
theorem forall_owned {P : Work → Environment → Prop} (laid : ∀ w e, LaidOut s w e → P w e)
    (stays : ∀ w w' e, Step s w w' → P w e → P w' e) (h : Moment s w) :
    ∀ id e, w.registry.env? id = some e → e.owner.isSome → P w e :=
  h.forall_env (P := fun w e => e.owner.isSome → P w e) (fun w e here _ _ => laid w e here)
    (fun _ _ _ owned => by cases owned) fun w w' e step holds owned =>
      stays w w' e step (holds owned)

theorem formed (h : Moment s w) {id : EnvId} {e : Environment} {d : DeclId}
    (known : w.registry.env? id = some e) (owned : e.owner = some d) : e.Formed s.program w d :=
  forall_owned (P := fun w e => ∀ d, e.owner = some d → e.Formed s.program w d)
    (fun _ _ laid _ owned => laid.formed owned)
    (fun _ _ _ step formed d owned => (formed d owned).later step.later)
    h id e known (by simp [owned]) d owned

theorem keys_nodup (h : Moment s w) (distinct : s.program.DistinctParams) {id : EnvId}
    {e : Environment} (known : w.registry.env? id = some e) (owned : e.owner.isSome) :
    (e.slots.map EnvSlot.key).Nodup :=
  forall_owned (P := fun _ e => (e.slots.map EnvSlot.key).Nodup)
    (fun _ _ laid => laid.keys_nodup distinct) (fun _ _ _ _ keys => keys) h id e known owned

/-- A declaration is associated with an environment of its own. -/
theorem declEnv_owner (h : Moment s w) : ∀ d id, w.registry.declEnv? d = some id →
    ∃ e, w.registry.env? id = some e ∧ e.owner = some d := by
  induction h with
  | same =>
    intro d id known
    cases known
  | @step w w' _ last ih =>
    have old : ∀ d id, w.registry.declEnv? d = some id →
        ∃ e, w'.registry.env? id = some e ∧ e.owner = some d := by
      intro d id known
      obtain ⟨e, there, owned⟩ := ih d id known
      exact ⟨e, last.extends.registry.env _ _ there, owned⟩
    cases last with
    | bindDecl known owned new => exact Table.forall_insert old ⟨_, known, owned⟩
    | shape =>
      intro d id known
      refine old d id ?_
      unfold Registry.register at known
      split at known
      · exact known
      · exact known
    | _ => exact old

end Work.Moment

/-- Slots are stable. The state in which compilation ends is a moment, and so is every state in
which it lays out an environment or compiles a body or statements from a moment; at each moment the
environments of declarations have their form, and what is registered then is registered at all
later ones. -/
theorem environment_slots_stable (p : Program) (r : Resolver) (c : Config)
    (distinct : p.DistinctParams) :
    (∀ limit, Moment (.of p r c)
      (Compile.endOf (Compile.entry (.ofDepth limit)) (.of p r c) .start)) ∧
    ∀ w, Moment (.of p r c) w →
      (∀ id e d, w.registry.env? id = some e → e.owner = some d →
        e.Formed p w d ∧ (e.slots.map EnvSlot.key).Nodup) ∧
      (∀ d id, w.registry.declEnv? d = some id →
        ∃ e, w.registry.env? id = some e ∧ e.owner = some d) ∧
      (∀ d, Later (.of p r c) w (Compile.endOf (Compile.environmentOf d) (.of p r c) w) ∧
        ∀ id w', Compile.environmentOf d (.of p r c) w = .ok id w' →
          w'.registry.declEnv? d = some id) ∧
      (∀ limit spec, Later (.of p r c) w
        (Compile.endOf ((Lowering.ofDepth limit).compile spec) (.of p r c) w)) ∧
      (∀ limit stmts (frame : Frame), frame.Grounded w → Later (.of p r c) w
        (Compile.endOf ((Lowering.ofDepth limit).block stmts frame) (.of p r c) w)) ∧
      ∀ w', Later (.of p r c) w w' →
        (∀ id e, w.registry.env? id = some e → w'.registry.env? id = some e) ∧
        (∀ d id, w.registry.declEnv? d = some id → w'.registry.declEnv? d = some id) := by
  refine ⟨fun limit => compile_moment limit p r c, fun w moment => ⟨?_, ?_, ?_, ?_, ?_, ?_⟩⟩
  · intro id e d known owned
    exact ⟨moment.formed known owned, moment.keys_nodup distinct known (by simp [owned])⟩
  · exact moment.declEnv_owner
  · intro d
    have ends := Compile.environmentOf_ends moment d
    exact ⟨ends.later, fun id w' ran => (ends.of_ok ran).2⟩
  · intro limit spec
    exact ((Lowering.ofDepth_walks limit).compile spec w moment).later
  · intro limit stmts frame grounded
    exact (((Lowering.ofDepth_walks limit).block stmts).ends moment grounded).later
  · intro w' later
    exact ⟨later.extends.registry.env, later.extends.registry.declEnv⟩

/-- A function with a variable that an arrow inside it captures. -/
def nestedCapture : Program := (Id.run <| StateT.run (do
  let z ← Construction.param "z" .boolean
  let (arrow, _) ← Construction.arrow [] [z] none
    (.block [← Construction.stmt (.expr (← Construction.ident "y"))])
  let x ← Construction.param "x" .boolean
  let (y, _) ← Construction.bind "y" none (some (← Construction.ident "x"))
  let (inner, _) ← Construction.bind "inner" none (some arrow)
  let outer ← Construction.function "outer" [] [x] none [y, inner]
  let call ← Construction.expr (.call (← Construction.ident "outer")
    [← Construction.expr (.bool true)] (some outer))
  Construction.pushEntry (← Construction.stmt (.function outer))
  Construction.pushEntry (← Construction.stmt (.expr call)) : Building Unit) {}).2.program

/-- The arrow has a slot for its parameter, one for the captured variable and one that is taken
over from the function around. -/
theorem environment_slots_stable_nested :
    ∃ w e, Moment (.of nestedCapture .ambient {}) w ∧ w.registry.env? ⟨1⟩ = some e ∧
      e.slots.map (·.origin) = [.param, .capture, .outer] ∧ e.remap = [(2, 0)] ∧
      e.Formed nestedCapture w ⟨1⟩ := by
  have stable := environment_slots_stable nestedCapture .ambient {} (by decide +kernel)
  have moment := stable.1 20
  have seen : ((Compile.endOf (Compile.entry (.ofDepth 20)) (.of nestedCapture .ambient {})
      .start).registry.env? ⟨1⟩).map (fun e => (e.owner, e.slots.map (·.origin), e.remap)) =
      some (some ⟨1⟩, [.param, .capture, .outer], [(2, 0)]) := by
    decide +kernel
  obtain ⟨e, known, fields⟩ := Option.map_eq_some_iff.mp seen
  simp only [Prod.mk.injEq] at fields
  exact ⟨_, e, moment, known, fields.2.1, fields.2.2,
    ((stable.2 _ moment).1 _ e _ known fields.1).1⟩

end ShapeCompiler
