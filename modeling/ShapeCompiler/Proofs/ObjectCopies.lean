import ShapeCompiler.Proofs.Projections

/-!
# Copies of objects

An object goes to another object shape property by property.

* `Stage.TakesNothing`, `Stage.LeftOut`: what goes into a property that the value lacks;
* `Emit.argument_missing_achieves`: this is null, or an optional union that is marked as absent;
* `Emit.copyIntoObject_achieves`: a new record with the properties of these names;
* `object_roundTrip`: an object that goes to a shape with all of its properties and comes back has
  the same values in them.
-/

namespace ShapeCompiler

open Source Code Work Machine

theorem Table.find?_eq_none_iff {α β : Type} [DecidableEq α] {k : α} {entries : List (α × β)} :
    Table.find? k entries = none ↔ ∀ e ∈ entries, e.1 ≠ k := by
  induction entries with
  | nil => simp [Table.find?]
  | cons e rest ih =>
    by_cases same : e.1 = k
    · simp [Table.find?, same]
    · simp [Table.find?, same, ih]

/-- Of names that are all different, each is found where it is. -/
theorem Table.find?_of_mem {α β : Type} [DecidableEq α] {k : α} {v : β} {entries : List (α × β)}
    (distinct : (entries.map (·.1)).Nodup) (listed : (k, v) ∈ entries) :
    Table.find? k entries = some v := by
  induction entries with
  | nil => cases listed
  | cons e rest ih =>
    rw [List.map_cons, List.nodup_cons] at distinct
    rcases List.mem_cons.mp listed with rfl | later
    · simp [Table.find?]
    · have apart : e.1 ≠ k := fun same => distinct.1 (List.mem_map.mpr ⟨(k, v), later, same.symm⟩)
      simpa [Table.find?, apart] using ih distinct.2 later

/-! ## Properties that are left out -/

namespace Stage

variable {x x' : Stage} {i : Info} {q : Value} {k : Nat}

/-- Null can be stored as such a value: a union or an intersection is registered. -/
def TakesNothing (x : Stage) : Info → Prop
  | .union shape => ∃ u, x.work.registry.union? shape = some u
  | .intersection shape => ∃ both, x.work.registry.intersection? shape = some both
  | _ => True

/-- What is stored for a property that is left out: an optional union is a record that is marked as
absent, made after another one, and everything else is null. -/
def LeftOut (x : Stage) (after : Nat) (i : Info) (q : Value) : Prop :=
  (q = .null ∧ ∀ shape, i = .union shape →
    ∃ u, x.work.registry.union? shape = some u ∧ u.optional = false) ∨
  ∃ shape u k, i = .union shape ∧ x.work.registry.union? shape = some u ∧ u.optional = true ∧
    after < k ∧ q = address k ∧ x.memory.heap[k]? = some (.agg [.bool false, .null])

theorem LeftOut.later {but : List Nat} (h : x.LeftOut k i q) (work : x'.work = x.work)
    (keeps : x.memory.Keeps but x'.memory) (only : ∀ j ∈ but, j ≤ k) : x'.LeftOut k i q := by
  rcases h with isNull | ⟨shape, u, j, isUnion, known, optional, after, isValue, cell⟩
  · exact .inl (work ▸ isNull)
  · have apart : j ∉ but := fun inside => Nat.not_lt.mpr (only j inside) after
    exact .inr ⟨shape, u, j, isUnion, work ▸ known, optional, after, isValue,
      keeps.heap j _ apart cell⟩

end Stage

namespace Emit

variable {s : Setup} {x : Stage}

/-- Null in the form of a property that is left out. -/
theorem coerce_null_achieves (l : Lowering) (moment : Moment s x.work) {i : Info}
    {k : Nat} {a : ValueId}
    (isNull : x.Knows a .null) (takes : x.TakesNothing i) (after : k < x.memory.heap.size) :
    Achieves s x (coerce l (.boxed a .null) i) fun out x' => out.form = .boxed ∧ ∃ q,
      x'.Knows out.value q ∧ x'.LeftOut k i q ∧ x'.work = x.work ∧ x.memory.Keeps [] x'.memory := by
  have stays {info : Info} (plain : ∀ shape, i ≠ .union shape) :
      Achieves s x (pure (.boxed a info) : Emit Operand) fun out x' => out.form = .boxed ∧ ∃ q,
        x'.Knows out.value q ∧ x'.LeftOut k i q ∧ x'.work = x.work ∧ x.memory.Keeps [] x'.memory :=
    .pure ⟨rfl, .null, isNull, .inl ⟨rfl, fun shape isUnion => absurd isUnion (plain shape)⟩, rfl,
      .refl _ _⟩
  have again (info : Info) (plain : ∀ shape, i = .union shape →
      ∃ u, x.work.registry.union? shape = some u ∧ u.optional = false) :
      Achieves s x (nullValue info) fun out x' => out.form = .boxed ∧ ∃ q,
        x'.Knows out.value q ∧ x'.LeftOut k i q ∧ x'.work = x.work ∧
            x.memory.Keeps [] x'.memory := by
    refine .bind null_achieves fun b x₁ _ here => .pure ?_
    obtain ⟨isNull, memory, work⟩ := here
    exact ⟨rfl, .null, isNull, .inl ⟨rfl, work ▸ plain⟩, work, memory ▸ .refl _ _⟩
  cases i with
  | void | null | any => exact stays (by simp)
  | union shape =>
    obtain ⟨u, known⟩ := takes
    refine .of_eq (unionShape_bind_apply _ known) ?_
    cases optional : u.optional with
    | false => exact again _ fun other isUnion => ⟨u, Info.union.inj isUnion ▸ known, optional⟩
    | true =>
      obtain ⟨members, has⟩ := moment.hasUnion known
      refine .bind (alloc_achieves "union.absent" (has.zero_optional moment optional)) ?_
      rintro r x₁ _ ⟨isRecord, memory, work, _⟩
      refine .pure ⟨rfl, _, isRecord, .inr ⟨shape, u, _, rfl, work ▸ known, optional,
        after, rfl, ?_⟩,
        work, ?_⟩
      · rw [memory]
        exact Memory.heap_push _ _
      · rw [memory]
        exact Memory.keeps_push _ _
  | intersection shape =>
    obtain ⟨both, known⟩ := takes
    exact .read (Compile.intersectionShape_known known) (again _ (by simp))
  | _ => exact again _ (by simp)

/-- What goes into a property that the value lacks. -/
theorem argument_missing_achieves (depth : Nat) (moment : Moment s x.work) {i : Info} {k : Nat}
    (takes : x.TakesNothing i) (after : k < x.memory.heap.size) :
    Achieves s x ((Lowering.ofDepth (depth + 1)).argument none i) fun value x' => ∃ q,
      x'.Knows value q ∧ x'.LeftOut k i q ∧ x'.work = x.work ∧ x.memory.Keeps [] x'.memory := by
  refine .bind (Q := fun v x' => ∃ a, v = .boxed a .null ∧ x'.Knows a .null ∧ x'.memory = x.memory ∧
    x'.work = x.work) (.bind null_achieves fun a x₁ _ here => .pure ⟨a, rfl, here⟩) ?_
  rintro _ x₁ _ ⟨a, rfl, isNull, memory, work⟩
  have takes₁ : x₁.TakesNothing i := by
    unfold Stage.TakesNothing at takes ⊢
    rwa [work]
  refine .bind (coerce_null_achieves (.ofDepth depth) (work ▸ moment) isNull takes₁
    (memory ▸ after)) ?_
  rintro out x₂ _ ⟨isBoxed, q, isValue, leftOut, work₂, keeps⟩
  rw [boxed_of_boxed isBoxed]
  exact .pure ⟨q, isValue, leftOut, work₂.trans work, memory ▸ keeps⟩

/-! ## A copy, property by property -/

/-- The property can be taken from a value with these properties, or left out. -/
def Supplies (x : Stage) (props : List (Name × Info)) (prop : Name × Info) : Prop :=
  Table.find? prop.1 props = some prop.2 ∧ prop.1 ≠ .empty ∨
    Table.find? prop.1 props = none ∧ x.TakesNothing prop.2

/-- What a copy has for a property: what the value has under this name, or what is stored for a
property that is left out. -/
def Copied (x : Stage) (k : Nat) (props : List (Name × Info)) (offset : Nat) (items : List Value)
    (prop : Name × Info) (q : Value) : Prop :=
  match Table.find? prop.1 props with
  | some _ => valueUnder props offset items prop.1 = some q
  | none => x.LeftOut k prop.2 q

theorem Copied.under {k offset : Nat} {props : List (Name × Info)} {items : List Value}
    {prop : Name × Info} {q : Value} {i : Info} (h : Copied x k props offset items prop q)
    (found : Table.find? prop.1 props = some i) :
    valueUnder props offset items prop.1 = some q := by
  rwa [Copied, found] at h

theorem Copied.later {x' : Stage} {k offset : Nat} {props : List (Name × Info)} {items : List Value}
    {prop : Name × Info} {q : Value} {but : List Nat} (h : Copied x k props offset items prop q)
    (work : x'.work = x.work) (keeps : x.memory.Keeps but x'.memory) (only : ∀ j ∈ but, j ≤ k) :
    Copied x' k props offset items prop q := by
  unfold Copied at h ⊢
  split at h
  · exact h
  · exact h.later work keeps only

section Copy

variable {v : Operand} {props : List (Name × Info)} {offset : Nat}
  {items : List Value} {t : ShapeId}
  {o : ObjectShape}

theorem find?_unread {fields : List (Name × Nat × Info)} {source : List (Name × Operand)} {n : Name}
    (reads : List.Forall₂ (x.IsRead items) fields source)
    (missing : ∀ field ∈ fields, field.1 ≠ n) :
    Table.find? n source = none := by
  refine Table.find?_eq_none_iff.mpr fun read inside => ?_
  obtain ⟨i, lt, rfl⟩ := List.mem_iff_getElem.mp inside
  have isRead := reads.get (reads.length_eq ▸ lt) lt
  exact isRead.1 ▸ missing _ (List.get_mem _ _)

/-- What is stored in the copy for a property. -/
theorem argument_achieves (depth : Nat) (moment : Moment s x.work) {source : List (Name × Operand)}
    (reads : List.Forall₂ (x.IsRead items) (Compile.numbered props offset) source)
    {prop : Name × Info}
    (supplies : Supplies x props prop) {k : Nat} (after : k < x.memory.heap.size) :
    Achieves s x ((Lowering.ofDepth (depth + 1)).argument (Table.find? prop.1 source) prop.2)
      fun value x' => ∃ q, x'.Knows value q ∧ Copied x' k props offset items prop q ∧
      x'.work = x.work ∧
        x.memory.Keeps [] x'.memory := by
  rcases supplies with ⟨found, named⟩ | ⟨missing, takes⟩
  · obtain ⟨j, first, isProp⟩ := Table.findIdx?_of_find? found
    obtain ⟨value, isFirst, _, isBoxed, isInfo, q, item, isValue⟩ :=
      find?_read reads (Compile.find?_numbered_of_first named first isProp)
    rw [isFirst, Lowering.argument, coerced_same depth isBoxed (congrArg Info.key isInfo)]
    refine .pure ⟨q, isValue, ?_, rfl, .refl _ _⟩
    simpa [Copied, found, valueUnder, first] using item
  · have unread : Table.find? prop.1 source = none := by
      refine find?_unread reads fun field inside => ?_
      obtain ⟨n, index, info⟩ := field
      obtain ⟨j, isProp, _⟩ := Compile.mem_numbered inside
      exact Table.find?_eq_none_iff.mp missing _ (List.mem_of_getElem? isProp)
    rw [unread]
    refine (argument_missing_achieves depth moment takes after).mono ?_
    rintro value x' _ ⟨q, isValue, leftOut, work, keeps⟩
    exact ⟨q, isValue, by simpa only [Copied, missing] using leftOut, work, keeps⟩

/-- A copy is a new record that has, for each property, what the value has under its name. -/
theorem copyIntoObject_achieves (depth : Nat) (moment : Moment s x.work)
    (has : x.work.registry.object? t = some o)
    (isObject : x.IsObject v props offset items)
    (supplies : ∀ prop ∈ o.props, Supplies x props prop) :
    Achieves s x (copyIntoObject (.ofDepth (depth + 1)) v t) fun out x' => ∃ ptr k vals,
      out = .boxed ptr (.object t) ∧ x.memory.heap.size ≤ k ∧ x'.Knows ptr (address k) ∧
      x'.memory.heap[k]? = some (.agg vals) ∧ x'.work = x.work ∧ x.memory.Keeps [] x'.memory ∧
      List.Forall₂ (Copied x' k props offset items) o.props vals := by
  refine .read (Compile.objectShape_known has) (.bind (fieldValues_achieves isObject) ?_)
  rintro _ x₁ goes₁ ⟨source, rfl, memory₁, work₁, reads⟩
  refine .bind (newRecord_achieves "obj.copy" (work₁ ▸ moment) (work₁ ▸ moment.object_laid has)) ?_
  rintro ptr x₂ goes₂ made
  obtain ⟨k, new, isPtr, cell⟩ := made.made
  rw [memory₁] at new
  have keeps₂ : x.memory.Keeps [k] x₂.memory := (memory₁ ▸ made.keeps).weaken (by simp)
  have work₂ := made.work.trans work₁
  -- the fields are filled one after the other, and what was made for them stays
  refine .bind (.forM (fun done x' => ∃ vals, vals.length = done.length ∧ x'.work = x.work ∧
    x.memory.Keeps [k] x'.memory ∧
    x'.memory.heap[k]? = some (.agg (partlyFilled o.props.length vals)) ∧
    List.Forall₂ (Copied x' k props offset items) (done.map (·.1)) vals) o.props.zipIdx
    ⟨[], rfl, work₂, keeps₂, cell, .nil⟩ ?_) ?_
  · rintro done ⟨prop, i⟩ rest parts x' goes' ⟨vals, count, work', keeps', cell', copied⟩
    obtain ⟨isProp, rfl⟩ := of_zipIdx_append parts
    have room : vals.length < o.props.length := count ▸ (List.getElem?_eq_some_iff.mp isProp).1
    have reads' := reads.imp fun _ _ isRead => isRead.later (goes₂.trans goes')
    have supplies' : Supplies x' props prop := by
      have here := supplies _ (List.mem_of_getElem? isProp)
      unfold Supplies Stage.TakesNothing at here ⊢
      rwa [work']
    refine .bind (argument_achieves depth (work' ▸ moment) reads' supplies'
      (Memory.lt_of_heap cell')) ?_
    rintro value x₃ goes₃ ⟨q, isValue, here, work₃, keeps₃⟩
    have isPtr₃ := goes₃.knows (goes'.knows isPtr)
    have inside : done.length < (partlyFilled o.props.length vals).length := by
      simp only [partlyFilled, List.length_append, List.length_replicate]
      omega
    refine (storeField_achieves o.record isPtr₃ (keeps₃.heap _ _ (by simp) cell') inside
      isValue).mono ?_
    rintro _ x₄ _ ⟨memory₄, work₄⟩
    have keeps₄ : x₃.memory.Keeps [k] x₄.memory := memory₄ ▸ Memory.keeps_put _ _ _
    have keeps₃₄ : x'.memory.Keeps [k] x₄.memory := (keeps₃.weaken (by simp)).trans keeps₄
    have only : ∀ j ∈ [k], j ≤ k := by simp
    refine ⟨vals ++ [q], by simp [count], work₄.trans (work₃.trans work'),
      keeps'.trans keeps₃₄, ?_, ?_⟩
    · rw [memory₄, ← count, set_partlyFilled room]
      exact Memory.heap_put (Memory.lt_of_heap (keeps₃.heap _ _ (by simp) cell')) _
    · rw [List.map_append]
      refine List.rel_append (copied.imp fun _ _ was => ?_)
        (.cons (here.later work₄ keeps₄ only) .nil)
      exact was.later (work₄.trans work₃) keeps₃₄ only
  · rintro _ x' goes' ⟨vals, count, work', keeps', cell', copied⟩
    rw [List.length_zipIdx] at count
    rw [partlyFilled_full count] at cell'
    rw [List.zipIdx_map_fst] at copied
    exact .pure ⟨ptr, k, vals, rfl, new, goes'.knows isPtr, cell', work',
      keeps'.of_new (by simpa using new),
      copied⟩

end Copy

/-- An object of another shape is copied. -/
theorem coerce_object (l : Lowering) {source target : ShapeId} (apart : source ≠ target)
    (ptr : ValueId) :
    coerce l (.boxed ptr (.object source)) (.object target) =
      copyIntoObject l (.boxed ptr (.object source)) target := by
  simp [coerce, coercePlain, Operand.boxed, Info.isNullish, apart]

/-- A value goes to another form, and what it becomes there to a third one. -/
def through (l : Lowering) (v : Operand) (there back : Info) : Emit (Operand × Operand) := do
  let mid ← coerce l v there
  return (mid, ← coerce l mid back)

end Emit

/-! ## There and back -/

/-- The value of a property is under its name. -/
theorem valueUnder_of_getElem? {props : List (Name × Info)} {items : List Value}
    {n : Name} {i : Info}
    {q : Value} {j : Nat} (distinct : (props.map (·.1)).Nodup) (here : props[j]? = some (n, i))
    (item : items[j]? = some q) : valueUnder props 0 items n = some q := by
  obtain ⟨j', first, here'⟩ :=
    Table.findIdx?_of_find? (Table.find?_of_mem distinct (List.mem_of_getElem? here))
  have inside : j < (props.map (·.1)).length := by
    rw [List.length_map]
    exact (List.getElem?_eq_some_iff.mp here).1
  obtain rfl : j = j' := (List.getElem?_inj inside distinct).mp (by simp [here, here'])
  simpa [valueUnder, first] using item

/-- A copy of a copy has the values that were copied, if every property that it has was copied. -/
theorem items_of_copied {x x' : Stage} {k k' : Nat} {props props' : List (Name × Info)}
    {items vals back : List Value} (distinct : (props.map (·.1)).Nodup)
    (distinct' : (props'.map (·.1)).Nodup) (every : props ⊆ props')
    (all : items.length = props.length)
    (there : List.Forall₂ (Emit.Copied x k props 0 items) props' vals)
    (again : List.Forall₂ (Emit.Copied x' k' props' 0 vals) props back) : back = items := by
  refine List.ext_getElem (again.length_eq.symm.trans all.symm) fun j isBack isItem => ?_
  have isProp : j < props.length := all ▸ isItem
  have listed : props[j] ∈ props := List.getElem_mem isProp
  -- the copy has it where the middle one has this name, which has it from where the value has this
  -- name
  have found := Table.find?_of_mem distinct' (every listed)
  obtain ⟨j', first, here'⟩ := Table.findIdx?_of_find? found
  have inside' : j' < props'.length := (List.getElem?_eq_some_iff.mp here').1
  have isVal : j' < vals.length := there.length_eq ▸ inside'
  have same : props'[j'] = props[j] := (List.getElem?_eq_some_iff.mp here').2
  have fromMiddle : vals[j'] = back[j] := by
    obtain ⟨i, isFirst, item⟩ := Option.bind_eq_some_iff.mp ((again.get isProp isBack).under found)
    obtain rfl : j' = i := Option.some.inj (first.symm.trans isFirst)
    exact (List.getElem?_eq_some_iff.mp item).2
  have fromValue : valueUnder props 0 items props[j].1 = some vals[j'] := by
    have copied := there.get inside' isVal
    rw [List.get_eq_getElem, same] at copied
    exact copied.under (Table.find?_of_mem distinct listed)
  have own : valueUnder props 0 items props[j].1 = some items[j] :=
    valueUnder_of_getElem? distinct (List.getElem?_eq_getElem isProp)
      (List.getElem?_eq_getElem isItem)
  exact fromMiddle.symm.trans (Option.some.inj (fromValue.symm.trans own))

/-- What is stored in the copy for a property is written. -/
theorem Emit.Copied.ne_undef {x : Stage} {k : Nat} {props : List (Name × Info)} {items : List Value}
    {prop : Name × Info} {q : Value} (h : Copied x k props 0 items prop q)
    (written : ∀ q ∈ items, q ≠ .undef) : q ≠ .undef := by
  unfold Copied at h
  split at h
  · obtain ⟨j, _, item⟩ := Option.bind_eq_some_iff.mp h
    exact written q (List.mem_of_getElem? item)
  · rcases h with ⟨rfl, _⟩ | ⟨_, _, _, _, _, _, _, rfl, _⟩ <;> simp [address]

/-- An object goes to another shape that has all of its properties, anywhere and possibly among
others, and comes back: a new record has its values in their places, and the record that it was
taken from stays. The record in between has them under their names, and what is stored for the other
properties is null or marked as absent. -/
theorem object_roundTrip (p : Program) (r : Resolver) (c : Config) (depth : Nat) {x : Stage}
    {source target : ShapeId} {o o' : ObjectShape} {v : ValueId} {k : Nat} {items : List Value}
    (moment : Moment (.of p r c) x.work) (has : x.work.registry.object? source = some o)
    (has' : x.work.registry.object? target = some o')
    (apart : source ≠ target) (distinct : (o.props.map (·.1)).Nodup)
    (distinct' : (o'.props.map (·.1)).Nodup) (named : ∀ prop ∈ o'.props, prop.1 ≠ .empty)
    (every : o.props ⊆ o'.props)
    (others : ∀ prop ∈ o'.props, prop.1 ∉ o.props.map (·.1) → x.TakesNothing prop.2)
    (isRecord : x.Knows v (address k)) (cell : x.memory.heap[k]? = some (.agg items))
    (all : items.length = o.props.length) (written : ∀ q ∈ items, q ≠ .undef) :
    Emit.Achieves (.of p r c) x
      (Emit.through (.ofDepth (depth + 1)) (.boxed v (.object source)) (.object target)
      (.object source))
      fun (mid, back) x' => ∃ ptr m vals ptr' b,
        mid = .boxed ptr (.object target) ∧ x'.Knows ptr (address m) ∧
        x'.memory.heap[m]? = some (.agg vals) ∧
        List.Forall₂ (Emit.Copied x' m o.props 0 items) o'.props vals ∧
        back = .boxed ptr' (.object source) ∧ x'.Knows ptr' (address b) ∧
        x'.memory.heap[b]? = some (.agg items) ∧
        x.memory.heap.size ≤ b ∧ b ≠ m ∧ x.memory.Keeps [] x'.memory := by
  have supplies : ∀ prop ∈ o'.props, Emit.Supplies x o.props prop := by
    intro prop listed
    by_cases own : prop.1 ∈ o.props.map (·.1)
    · obtain ⟨prop', listed', sameName⟩ := List.mem_map.mp own
      have isProp := Table.find?_of_mem distinct listed'
      have same : prop'.2 = prop.2 := by
        have found := Table.find?_of_mem distinct' (every listed')
        rw [sameName, Table.find?_of_mem distinct' listed] at found
        exact (Option.some.inj found).symm
      exact .inl ⟨sameName ▸ same ▸ isProp, named prop listed⟩
    · refine .inr ⟨Table.find?_eq_none_iff.mpr fun e inside sameName => ?_, others prop listed own⟩
      exact own (List.mem_map.mpr ⟨e, inside, sameName⟩)
  have isObject : x.IsObject (.boxed v (.object source)) o.props 0 items := by
    refine ⟨rfl, .object has, ⟨k, isRecord, cell⟩, fun j inside => ?_⟩
    exact ⟨_, written _ (List.getElem_mem (all ▸ inside)), List.getElem?_eq_getElem (all ▸ inside)⟩
  refine .bind (.of_eq (by rw [Emit.coerce_object _ apart])
    (Emit.copyIntoObject_achieves depth moment has' isObject supplies)) ?_
  rintro _ x₁ goes₁ ⟨ptr, m, vals, rfl, new, isMiddle, middle, work₁, keeps₁, there⟩
  have isObject₁ : x₁.IsObject (.boxed ptr (.object target)) o'.props 0 vals := by
    refine ⟨rfl, .object (work₁ ▸ has'), ⟨m, isMiddle, middle⟩, fun j inside => ?_⟩
    have isVal : j < vals.length := there.length_eq ▸ inside
    exact ⟨_, (there.get inside isVal).ne_undef written, List.getElem?_eq_getElem isVal⟩
  have has₁ : x₁.work.registry.object? source = some o := work₁ ▸ has
  have supplies₁ : ∀ prop ∈ o.props, Emit.Supplies x₁ o'.props prop := fun prop listed =>
    .inl ⟨Table.find?_of_mem distinct' (every listed), named prop (every listed)⟩
  refine .bind (.of_eq (by rw [Emit.coerce_object _ apart.symm])
    (Emit.copyIntoObject_achieves depth (work₁ ▸ moment) has₁ isObject₁ supplies₁)) ?_
  rintro _ x₂ goes₂ ⟨ptr', b, back, rfl, new', isBack, cell', work₂, keeps₂, again⟩
  obtain rfl : back = items := items_of_copied distinct distinct' every all there again
  refine .pure ⟨ptr, m, vals, ptr', b, rfl, goes₂.knows isMiddle,
    keeps₂.heap _ _ (by simp) middle, ?_, rfl,
    isBack, cell', keeps₁.size.trans new', ?_, keeps₁.trans keeps₂⟩
  · exact there.imp fun _ _ copied => copied.later work₂ keeps₂ (by simp)
  · exact (Nat.lt_of_lt_of_le (Memory.lt_of_heap middle) new').ne'

/-- An object of two properties goes to a type that has them the other way round, around one that
may be missing. -/
@[irreducible] def widerFlags : Program := (Id.run <| StateT.run (do
  let wider ← Construction.objectType
    [("b", .boolean), ("c", ← Construction.unionType [.boolean, .null]), ("a", .boolean)]
  let flags ← Construction.object
    [("a", ← Construction.expr (.bool true)), ("b", ← Construction.expr (.bool false))]
  let (v, _) ← Construction.bind "v" none (some flags)
  let (t, _) ← Construction.bind "t" (some wider) (some (← Construction.ident "v"))
  Construction.pushEntry v
  Construction.pushEntry t : Building Unit) {}).2.program

/-- The state once the program is compiled. -/
def widerFlagsWork : Work :=
  Compile.endOf (Compile.entry (.ofDepth 20)) (.of widerFlags .ambient {}) .start

theorem widerFlags_object (id : ShapeId) (props : List (Name × Info))
    (made : (widerFlagsWork.registry.object? id).map
    (fun o => decide (o.props = props)) = some true) :
    ∃ o, widerFlagsWork.registry.object? id = some o ∧ o.props = props := by
  obtain ⟨o, known, isMade⟩ := Option.map_eq_some_iff.mp made
  exact ⟨o, known, of_decide_eq_true isMade⟩

/-- The flags come back in a new record, from one that has them the other way round, around an
absent value. -/
theorem object_roundTrip_widerFlags :
    Emit.Achieves (.of widerFlags .ambient {}) (givenAddress widerFlagsWork 0 flagsAtZero)
      (Emit.through (.ofDepth 20) (.boxed ⟨0⟩ (.object ⟨0⟩)) (.object ⟨2⟩) (.object ⟨0⟩))
      fun (mid, back) x' => ∃ ptr m absent ptr' b,
        mid = .boxed ptr (.object ⟨2⟩) ∧ x'.Knows ptr (address m) ∧
        x'.memory.heap[m]? = some (.agg [address 2, absent, address 1]) ∧
        x'.LeftOut m (.union ⟨1⟩) absent ∧
        back = .boxed ptr' (.object ⟨0⟩) ∧ x'.Knows ptr' (address b) ∧
        x'.memory.heap[b]? = some (.agg [address 1, address 2]) ∧ 3 ≤ b ∧
        x'.memory.heap[0]? = some (.agg [address 1, address 2]) := by
  obtain ⟨o, has, isProps⟩ := widerFlags_object ⟨0⟩ [(⟨3⟩, .boolean), (⟨1⟩, .boolean)]
    (by decide +kernel)
  obtain ⟨o', has', isProps'⟩ := widerFlags_object ⟨2⟩
    [(⟨1⟩, .boolean), (⟨2⟩, .union ⟨1⟩), (⟨3⟩, .boolean)] (by decide +kernel)
  have takes : (givenAddress widerFlagsWork 0 flagsAtZero).TakesNothing (.union ⟨1⟩) :=
    Option.isSome_iff_exists.mp (by decide +kernel : (widerFlagsWork.registry.union? ⟨1⟩).isSome)
  refine (object_roundTrip widerFlags .ambient {} 19
    (compile_moment 20 widerFlags .ambient {}) has has'
    (by decide) (by rw [isProps]; decide) (by rw [isProps']; decide) (by rw [isProps']; decide)
    (by rw [isProps, isProps']; decide) ?_ ⟨Nat.zero_lt_one, rfl⟩ rfl (by rw [isProps]; rfl)
    (by simp [address])).mono ?_
  · intro prop listed other
    rw [isProps'] at listed
    rw [isProps] at other
    simp only [List.mem_cons, List.not_mem_nil, or_false] at listed
    rcases listed with rfl | rfl | rfl
    · simp at other
    · exact takes
    · simp at other
  · rintro ⟨mid, back⟩ x' _ ⟨ptr, m, vals, ptr', b, isMid, isMiddle, middle, copied,
      isBack, isAgain, again,
      new, _, keeps⟩
    rw [isProps, isProps'] at copied
    cases copied with
    | cons first copied =>
      cases copied with
      | cons absent copied =>
        cases copied with
        | cons last none =>
          cases none
          cases first
          cases last
          exact ⟨ptr, m, _, ptr', b, isMid, isMiddle, middle, absent, isBack, isAgain, again, new,
            keeps.heap _ _ (by simp) rfl⟩

end ShapeCompiler
