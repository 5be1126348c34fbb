import Mathlib.Data.List.Basic
import ShapeCompiler.Proofs.Moments
import ShapeCompiler.Source.Construction

/-!
# What shapes are known by

The shape of an object or a union is asked for by a text that lists its properties or members.

* `Later.shapes`: shapes keep their ids, so a text keeps its shape;
* `shapeNamed_spec`: a request always has an answer, the shape asked for if its text is new and
  the first shape of this text otherwise;
* `shapeNamed_made`: the record of a shape has the fields asked for, unless it was there before;
* `objectName_parts`, `unionName_parts`: where the parts have no punctuation of their own, the text
  tells their texts;
* `shapes_by_text`: so two requests share a shape exactly if they have one text, and a text that was
  new keeps the shape it was asked for.

Texts do not tell everything: closures of different code have one text, and so have classes of one
name (`arrows_share_shape`).
-/

namespace ShapeCompiler

open Source Code Work

/-- Only closures share a slot. -/
theorem Info.eq_or_closure {a b : Info} (same : a.key = b.key) : a = b ∨ a.key = .closure := by
  cases a with
  | closure known => exact .inr rfl
  | _ =>
    cases b with
    | _ => simp_all [key]

/-! ## The shapes of a registry -/

namespace Registry

variable {r r' : Registry} {name : String} {id : ShapeId}

/-- The shape of a name has this name. -/
theorem shape?_of_shapeByName (h : r.shapeByName name = some id) :
    ∃ shape, r.shape? id = some shape ∧ shape.name = name := by
  obtain ⟨i, found, rfl⟩ := Option.map_eq_some_iff.mp h
  exact exists_of_findIdx?_named found

theorem object?_eq_some_iff {shape : ObjectShape} :
    r.object? id = some shape ↔ r.shape? id = some (.object shape) := by
  unfold object?
  split <;> simp_all

theorem union?_eq_some_iff {shape : UnionShape} :
    r.union? id = some shape ↔ r.shape? id = some (.union shape) := by
  unfold union?
  split <;> simp_all

theorem intersection?_eq_some_iff {shape : IntersectionShape} :
    r.intersection? id = some shape ↔ r.shape? id = some (.intersection shape) := by
  unfold intersection?
  split <;> simp_all

theorem shapeByName_of_prefix (more : r.shapes.toList <+: r'.shapes.toList)
    (h : r.shapeByName name = some id) : r'.shapeByName name = some id := by
  obtain ⟨others, same⟩ := more
  obtain ⟨i, found, rfl⟩ := Option.map_eq_some_iff.mp h
  simp [shapeByName, ← same, List.findIdx?_append, found]

theorem shape?_of_prefix {shape : Shape} (more : r.shapes.toList <+: r'.shapes.toList)
    (h : r.shape? id = some shape) : r'.shape? id = some shape := by
  simp only [shape?, ← Array.getElem?_toList] at h ⊢
  obtain ⟨others, same⟩ := more
  rw [← same, List.getElem?_append_left (List.getElem?_eq_some_iff.mp h).1]
  exact h

theorem register_prefix (shape : Shape) :
    r.shapes.toList <+: (r.register shape).2.shapes.toList := by
  unfold register
  split
  · exact List.prefix_refl _
  · simp

/-- What is registered was there before, or is new. -/
theorem of_shape?_register {shape shape' : Shape}
    (known : (r.register shape).2.shape? id = some shape') :
    shape' = shape ∨ r.shape? id = some shape' := by
  unfold register at known
  split at known
  · exact .inr known
  · exact (of_getElem?_push known).imp_left And.right

/-- A shape of a new name is registered as it is. -/
theorem register_new {shape : Shape} (new : r.shapeByName shape.name = none) :
    (r.register shape).2.shape? (r.register shape).1 = some shape ∧
      (r.register shape).2.shapeByName shape.name = some (r.register shape).1 := by
  have absent : r.shapes.toList.findIdx? (fun x => decide (x.name = shape.name)) = none := by
    simpa [shapeByName] using new
  simp [register, shape?, shapeByName, List.findIdx?_append, absent]

end Registry

namespace Work

variable {s : Setup} {w w' : Work}

theorem Step.shapes (h : Step s w w') : w.registry.shapes.toList <+: w'.registry.shapes.toList := by
  cases h with
  | shape => exact Registry.register_prefix _
  | _ => exact List.prefix_refl _

/-- Shapes keep their ids. -/
theorem Later.shapes (h : Later s w w') :
    w.registry.shapes.toList <+: w'.registry.shapes.toList := by
  induction h with
  | same => exact List.prefix_refl _
  | step _ last ih => exact ih.trans last.shapes

/-- A request for a shape by its text: what is asked for is made if the text is new, and nothing
changes otherwise. -/
structure ShapeFor (s : Setup) (w : Work) (name : String) (make : TyId → Shape) (id : ShapeId)
    (w' : Work) : Prop where
  later : Later s w w'
  found : w'.registry.shapeByName name = some id
  new : w.registry.shapeByName name = none → ∃ record, w'.registry.shape? id = some (make record)
  old : ∀ first, w.registry.shapeByName name = some first → first = id ∧ w' = w

/-- Two requests, one after the other, are answered alike exactly if they have one text. -/
theorem ShapeFor.same_iff {name name' : String} {make make' : TyId → Shape} {id id' : ShapeId}
    {w₁ w₂ w₃ : Work} (h : ShapeFor s w name make id w₁) (later : Later s w₁ w₂)
    (h' : ShapeFor s w₂ name' make' id' w₃) : id = id' ↔ name = name' := by
  have stays : w₃.registry.shapeByName name = some id :=
    Registry.shapeByName_of_prefix (later.trans h'.later).shapes h.found
  constructor
  · rintro rfl
    obtain ⟨shape, there, isName⟩ := Registry.shape?_of_shapeByName stays
    obtain ⟨shape', there', isName'⟩ := Registry.shape?_of_shapeByName h'.found
    obtain rfl : shape = shape' := Option.some.inj (there.symm.trans there')
    exact isName.symm.trans isName'
  · rintro rfl
    exact Option.some.inj (stays.symm.trans h'.found)

/-- A request for a text that was new is answered alike whenever the text is asked for again: with
the shape that was asked for. -/
theorem ShapeFor.again {name : String} {make make' : TyId → Shape} {id id' : ShapeId}
    {w₁ w₂ w₃ : Work} (h : ShapeFor s w name make id w₁)
    (isNew : w.registry.shapeByName name = none) (later : Later s w₁ w₂)
    (h' : ShapeFor s w₂ name make' id' w₃) :
    id' = id ∧ w₃ = w₂ ∧ ∃ record, w₂.registry.shape? id = some (make record) := by
  have stays := Registry.shapeByName_of_prefix later.shapes h.found
  obtain ⟨rfl, rfl⟩ := h'.old id stays
  obtain ⟨record, made⟩ := h.new isNew
  exact ⟨rfl, rfl, record, Registry.shape?_of_prefix later.shapes made⟩

end Work

namespace Compile

/-- The shape of a name, made if there is none. -/
def shapeNamed (name : String) (fields : List TyId) (make : TyId → Shape) : Compile ShapeId := do
  match (← registry).shapeByName name with
  | some id => return id
  | none =>
    let record ← pointerRecord name fields
    registerShape (make record)

theorem registry_bind_apply {α : Type} (k : Registry → Compile α) (s : Setup) (w : Work) :
    (registry >>= k) s w = k w.registry s w := rfl

theorem program_bind_apply {α : Type} (k : Program → Compile α) (s : Setup) (w : Work) :
    (program >>= k) s w = k s.program s w := rfl

theorem shapeOfObject_apply (props : List (Name × Info)) (s : Setup) (w : Work) :
    shapeOfObject props s w =
      shapeNamed (objectName s.program w.registry props) (List.replicate props.length .ptr)
        (fun record => .object ⟨objectName s.program w.registry props, record, props⟩) s w := by
  cases found : w.registry.shapeByName (objectName s.program w.registry props) <;>
    simp only [shapeOfObject, shapeNamed, registry_bind_apply, program_bind_apply, found]

theorem shapeOfUnion_apply (members : List Info) (nullable : Bool) (s : Setup) (w : Work) :
    shapeOfUnion members nullable s w =
      shapeNamed (unionName s.program w.registry members nullable)
        (unionOf s.program w.registry members nullable .void).fields
        (fun record => .union (unionOf s.program w.registry members nullable record)) s w := by
  simp only [shapeOfUnion, shapeNamed, registry_bind_apply, program_bind_apply]
  rfl

/-- A request always has an answer. -/
theorem shapeNamed_spec {name : String} {fields : List TyId} {make : TyId → Shape}
    {s : Setup} {w : Work}
    (asked : Shape.Asked s.program w.registry name fields make) :
    ∃ id w', shapeNamed name fields make s w = .ok id w' ∧ ShapeFor s w name make id w' := by
  rw [shapeNamed, registry_bind_apply]
  cases found : w.registry.shapeByName name with
  | some first =>
    refine ⟨first, w, rfl, .same, found, by simp [found], fun other known => ⟨?_, rfl⟩⟩
    exact Option.some.inj (known.symm.trans found)
  | none =>
    have new (record : TyId) (types : TypeTable) :
        ({ w with code := { w.code with types } } : Work).registry.shapeByName
          (make record).name = none := by
      rw [asked.name_eq]
      exact found
    let t := w.code.types.record name fields
    obtain ⟨there, byName⟩ := Registry.register_new (new t.1 t.2)
    rw [asked.name_eq] at byName
    exact ⟨_, _, rfl, (Step.shape asked found).later, byName, fun _ =>
      ⟨t.1, there⟩, by simp [found]⟩

/-- A shape that is made is there from then on. If its record is one of its own, it has the fields
that were asked for. -/
theorem shapeNamed_made {name : String} {fields : List TyId} {make : TyId → Shape} {s : Setup}
    {w w' : Work} {id : ShapeId} (ran : shapeNamed name fields make s w = .ok id w')
    (isName : ∀ record, (make record).name = name) (new : w.registry.shapeByName name = none) :
    ∃ record, ∀ v, Later s w' v → v.registry.shape? id = some (make record) ∧
      (w.code.types.lookupNamed name = none → v.code.types.fields? record = some fields) := by
  rw [shapeNamed, registry_bind_apply, new] at ran
  obtain ⟨record, w₁, made, ran⟩ := of_bind_ok ran
  cases made
  cases ran
  have isNew : w.registry.shapeByName (make (w.code.types.named name).1).name = none := by
    rw [isName]
    exact new
  have there := (Registry.register_new isNew).1
  refine ⟨_, fun v later => ⟨Registry.shape?_of_prefix later.shapes there, fun ownRecord => ?_⟩⟩
  exact TypeTable.fields?_of_grows later.extends.code.types
    (TypeTable.fields?_record fields ownRecord)

theorem shapeOfObject_spec (s : Setup) (w : Work) (props : List (Name × Info)) :
    ∃ id w', shapeOfObject props s w = .ok id w' ∧
      ShapeFor s w (objectName s.program w.registry props)
        (fun record => .object ⟨objectName s.program w.registry props, record, props⟩) id w' := by
  rw [shapeOfObject_apply]
  exact shapeNamed_spec (.object props)

theorem shapeOfUnion_spec (s : Setup) (w : Work) (members : List Info) (nullable : Bool) :
    ∃ id w', shapeOfUnion members nullable s w = .ok id w' ∧
      ShapeFor s w (unionName s.program w.registry members nullable)
        (fun record => .union (unionOf s.program w.registry members nullable record)) id w' := by
  rw [shapeOfUnion_apply]
  exact shapeNamed_spec (.union members nullable)

/-- An intersection is asked for by the names of its members, whatever its fields are. -/
theorem shapeOfIntersection_spec (s : Setup) (w : Work) (segments : List Segment)
    (fields : List (Name × Info)) :
    ∃ id w', shapeOfIntersection segments fields s w = .ok id w' ∧
      ShapeFor s w (intersectionName segments)
        (fun record => .intersection ⟨intersectionName segments, record, fields, segments⟩) id w' :=
  shapeNamed_spec (.intersection segments fields)

end Compile

/-! ## What is registered -/

/-- An object or union that is registered was asked for, and its record has its fields. -/
inductive Shape.Made (p : Program) (t : TypeTable) : Shape → Prop where
  | object {o : ObjectShape} (laid : t.fields? o.record = some (List.replicate o.props.length .ptr))
    :
    Made p t (.object o)
  | union {u : UnionShape}
    (asked : ∃ r members nullable, u = Compile.unionOf p r members nullable u.record)
    (laid : t.fields? u.record = some u.fields) : Made p t (.union u)
  | intersection (i : IntersectionShape) : Made p t (.intersection i)

theorem Shape.Made.further {p : Program} {t t' : TypeTable} {shape : Shape} (h : shape.Made p t)
    (grown : t.Grows t') : shape.Made p t' := by
  cases h with
  | object laid => exact .object (TypeTable.fields?_of_grows grown laid)
  | union asked laid => exact .union asked (TypeTable.fields?_of_grows grown laid)
  | intersection i => exact .intersection i

/-- A shape that is asked for is made, unless it is an object or union of a name that a record has
already. -/
theorem Shape.Asked.made {p : Program} {r : Registry} {name : String} {fields : List TyId}
    {make : TyId → Shape} (asked : Asked p r name fields make) {t : TypeTable}
    (new : NamesShape name → t.lookupNamed name = none) :
    (make (t.record name fields).1).Made p (t.record name fields).2 := by
  cases asked with
  | object props =>
    exact .object (TypeTable.fields?_record _ (new (.inl (by simp [objectName]))))
  | union members nullable =>
    exact .union ⟨r, members, nullable, rfl⟩ (TypeTable.fields?_record _
      (new (.inr (by simp [unionName]))))
  | intersection segments fields => exact .intersection _

namespace Work.Moment

variable {s : Setup} {w : Work}

/-- A record that is named like an object or union belongs to a shape of this name. -/
theorem shape_of_named (h : Moment s w) : ∀ name, NamesShape name → w.code.types.HasNamed name →
    (w.registry.shapeByName name).isSome := by
  induction h with
  | same =>
    rintro name names ⟨ty, inside, isName⟩
    have others : ∀ ty ∈ start.code.types.types.toList, ∀ n ∈ ty.name?, ¬ NamesShape n := by
      decide +kernel
    exact absurd names (others ty inside name (TypeTable.isNamed_iff.mp isName))
  | @step w w' before last ih =>
    have old : ∀ name, NamesShape name → w.code.types.HasNamed name →
        (w'.registry.shapeByName name).isSome := fun name names has => by
      obtain ⟨id, known⟩ := Option.isSome_iff_exists.mp (ih name names has)
      simp [Registry.shapeByName_of_prefix last.shapes known]
    cases last with
    | declare symbol params ret =>
      have same : (w.code.declare symbol params ret).2.types = w.code.types := by
        unfold Module.declare
        split <;> rfl
      exact fun name names has => old name names (same ▸ has)
    | types grown aside =>
      exact fun name names has => old name names
        ((aside name has).resolve_right fun other => other names)
    | @shape name fields make asked new =>
      intro name' names has
      rcases has.of_record with before | rfl
      · exact old name' names before
      · have isName := asked.name_eq (w.code.types.record name fields).1
        have byName := (Registry.register_new (isName ▸ new)).2
        rw [isName] at byName
        exact Option.isSome_iff_exists.mpr ⟨_, byName⟩
    | _ => exact old

theorem shape_made (h : Moment s w) : ∀ id shape, w.registry.shape? id = some shape →
    shape.Made s.program w.code.types := by
  induction h with
  | same =>
    intro id shape known
    simp [Registry.shape?, start] at known
  | @step w w' before last ih =>
    have old : ∀ id shape, w.registry.shape? id = some shape → shape.Made s.program w'.code.types :=
      fun id shape known => (ih id shape known).further last.extends.code.types
    cases last with
    | @shape name fields make asked new =>
      intro id shape known
      rcases Registry.of_shape?_register known with rfl | there
      · refine asked.made fun names => TypeTable.lookupNamed_eq_none_iff.mpr fun has => ?_
        simpa [new] using shape_of_named before name names has
      · exact old id shape there
    | _ => exact old

/-- The record of an object has a field for each property. -/
theorem object_laid (h : Moment s w) {id : ShapeId} {o : ObjectShape}
    (known : w.registry.object? id = some o) :
    w.code.types.fields? o.record = some (List.replicate o.props.length .ptr) := by
  cases h.shape_made id _ (Registry.object?_eq_some_iff.mp known) with
  | object laid => exact laid

/-- The record of a union has its fields. -/
theorem union_laid (h : Moment s w) {id : ShapeId} {u : UnionShape}
    (known : w.registry.union? id = some u) : w.code.types.fields? u.record = some u.fields := by
  cases h.shape_made id _ (Registry.union?_eq_some_iff.mp known) with
  | union _ laid => exact laid

/-- A union that is registered has the slots that its members ask for. -/
theorem union_asked (h : Moment s w) {id : ShapeId} {u : UnionShape}
    (known : w.registry.union? id = some u) :
    ∃ r members nullable, u = Compile.unionOf s.program r members nullable u.record := by
  cases h.shape_made id _ (Registry.union?_eq_some_iff.mp known) with
  | union asked _ => exact asked

end Work.Moment

/-! ## Texts -/

/-- A character that is in neither beginning ends both. -/
theorem append_cons_inj {α : Type} {c : α} {xs ys xs' ys' : List α} (apart : c ∉ xs)
    (apart' : c ∉ xs') (same : xs ++ c :: ys = xs' ++ c :: ys') : xs = xs' ∧ ys = ys' := by
  induction xs generalizing xs' with
  | nil =>
    cases xs' with
    | nil => simpa using same
    | cons x rest =>
      cases same
      exact absurd List.mem_cons_self apart'
  | cons x rest ih =>
    cases xs' with
    | nil =>
      cases same
      exact absurd List.mem_cons_self apart
    | cons x' rest' =>
      obtain ⟨rfl, tails⟩ := List.cons.inj same
      obtain ⟨rfl, rfl⟩ := ih (fun inside => apart (List.mem_cons_of_mem _ inside))
        (fun inside => apart' (List.mem_cons_of_mem _ inside)) tails
      exact ⟨rfl, rfl⟩

/-- Texts without the separator can be told apart again. -/
theorem eq_of_intercalate_eq {sep : String} {c : Char} (isSep : sep.toList = [c])
    {parts parts' : List String} (apart : ∀ t ∈ parts, c ∉ t.toList)
    (apart' : ∀ t ∈ parts', c ∉ t.toList) (some : parts ≠ []) (some' : parts' ≠ [])
    (same : sep.intercalate parts = sep.intercalate parts') : parts = parts' := by
  have split : ∀ {parts : List String}, (∀ t ∈ parts, c ∉ t.toList) → parts ≠ [] →
      (sep.intercalate parts).toList.splitOn c = parts.map String.toList := by
    intro parts apart some
    rw [String.toList_intercalate, isSep]
    apply List.splitOn_intercalate
    · simpa using apart
    · simpa using some
  have lists : parts.map String.toList = parts'.map String.toList := by
    rw [← split apart some, ← split apart' some', same]
  exact List.map_injective_iff.mpr (fun _ _ => String.toList_inj.mp) lists

/-- No property has punctuation that could be taken for that of the whole text. -/
def PlainProps (p : Program) (r : Registry) (props : List (Name × Info)) : Prop :=
  ∀ prop ∈ props, ':' ∉ (p.text prop.1).toList ∧ ',' ∉ (p.text prop.1).toList ∧
    ',' ∉ (prop.2.describe p r).toList

/-- No member has punctuation that could be taken for that of the whole text, or reads as null. -/
def PlainMembers (p : Program) (r : Registry) (members : List Info) : Prop :=
  ∀ member ∈ members, '|' ∉ (member.describe p r).toList ∧ member.describe p r ≠ "null"

section Texts

variable {p : Program} {r r' : Registry}

/-- A property in the text of an object. -/
def propText (p : Program) (r : Registry) (prop : Name × Info) : String :=
  p.text prop.1 ++ ":" ++ prop.2.describe p r

theorem toList_propText (prop : Name × Info) : (propText p r prop).toList =
    (p.text prop.1).toList ++ ':' :: (prop.2.describe p r).toList := by
  simp [propText]

/-- By induction on the properties: the first colon ends the name of each. -/
theorem propTexts_parts {props props' : List (Name × Info)} (plain : PlainProps p r props)
    (plain' : PlainProps p r' props') (same : props.map (propText p r) = props'.map (propText p r'))
    :
    props.map (fun prop => (p.text prop.1, prop.2.describe p r)) =
      props'.map (fun prop => (p.text prop.1, prop.2.describe p r')) := by
  induction props generalizing props' with
  | nil =>
    cases props' with
    | nil => rfl
    | cons prop' rest' => cases same
  | cons prop rest ih =>
    cases props' with
    | nil => cases same
    | cons prop' rest' =>
      obtain ⟨first, others⟩ := List.cons.inj same
      have chars := congrArg String.toList first
      rw [toList_propText, toList_propText] at chars
      obtain ⟨names, infos⟩ := append_cons_inj (plain prop List.mem_cons_self).1
        (plain' prop' List.mem_cons_self).1 chars
      have tails := ih (fun q inside => plain q (List.mem_cons_of_mem _ inside))
        (fun q inside => plain' q (List.mem_cons_of_mem _ inside)) others
      rw [List.map_cons, List.map_cons, String.toList_inj.mp names,
        String.toList_inj.mp infos, tails]

/-- The text of an object tells the texts of its properties. -/
theorem objectName_parts {props props' : List (Name × Info)} (plain : PlainProps p r props)
    (plain' : PlainProps p r' props') (same : objectName p r props = objectName p r' props') :
    props.map (fun prop => (p.text prop.1, prop.2.describe p r)) =
      props'.map (fun prop => (p.text prop.1, prop.2.describe p r')) := by
  have apart {r : Registry} {props : List (Name × Info)} (plain : PlainProps p r props) :
      ∀ t ∈ props.map (propText p r), ',' ∉ t.toList := by
    simp only [List.mem_map, forall_exists_index, and_imp, forall_apply_eq_imp_iff₂]
    intro prop inside
    obtain ⟨_, inName, inInfo⟩ := plain prop inside
    rw [toList_propText]
    simp [inName, inInfo]
  have filled {r : Registry} {prop : Name × Info} {rest : List (Name × Info)} :
      ",".intercalate ((prop :: rest).map (propText p r)) ≠ "" := by
    intro empty
    have none := congrArg String.toList empty
    cases rest <;> simp [propText] at none
  have joined : ",".intercalate (props.map (propText p r)) =
      ",".intercalate (props'.map (propText p r')) := by
    have cut := congrArg String.toList same
    simp only [objectName, String.toList_append, List.append_cancel_left_eq,
      List.append_cancel_right_eq] at cut
    exact String.toList_inj.mp cut
  apply propTexts_parts plain plain'
  cases props with
  | nil =>
    cases props' with
    | nil => rfl
    | cons prop' rest' => exact absurd joined.symm filled
  | cons prop rest =>
    cases props' with
    | nil => exact absurd joined filled
    | cons prop' rest' =>
      exact eq_of_intercalate_eq rfl (apart plain) (apart plain') (by simp) (by simp) joined

/-- The members of a union and the null beside them. -/
def memberTexts (p : Program) (r : Registry) (members : List Info) (nullable : Bool) :
    List String :=
  members.map (·.describe p r) ++ if nullable then ["null"] else []

theorem unionName_eq {members : List Info} (some : members ≠ []) (nullable : Bool) :
    unionName p r members nullable = "union." ++
    "|".intercalate (memberTexts p r members nullable) := by
  cases nullable with
  | false => simp [unionName, memberTexts]
  | true =>
    have some' : members.map (·.describe p r) ≠ [] := by simpa using some
    have last : "|null" = "|" ++ "null" := rfl
    rw [memberTexts, if_pos rfl, String.intercalate_append_of_ne_nil some' (by simp),
      String.intercalate_singleton, unionName, if_pos rfl, last]
    simp only [String.append_assoc]

/-- The text of a union tells the texts of its members. -/
theorem unionName_parts {members members' : List Info} {nullable nullable' : Bool}
    (plain : PlainMembers p r members) (plain' : PlainMembers p r' members') (some : members ≠ [])
    (some' : members' ≠ [])
    (same : unionName p r members nullable = unionName p r' members' nullable') :
    members.map (·.describe p r) = members'.map (·.describe p r') ∧ nullable = nullable' := by
  have apart {r : Registry} {members : List Info} (plain : PlainMembers p r members)
    (nullable : Bool) :
      ∀ t ∈ memberTexts p r members nullable, '|' ∉ t.toList := by
    intro t inside
    rcases List.mem_append.mp inside with isMember | isNull
    · obtain ⟨member, there, rfl⟩ := List.mem_map.mp isMember
      exact (plain member there).1
    · cases nullable with
      | false => cases isNull
      | true =>
        obtain rfl := List.mem_singleton.mp isNull
        decide
  have noNull {r : Registry} {members : List Info} (plain : PlainMembers p r members) :
      "null" ∉ members.map (·.describe p r) := by
    intro inside
    obtain ⟨member, there, reads⟩ := List.mem_map.mp inside
    exact (plain member there).2 reads
  rw [unionName_eq some, unionName_eq some'] at same
  have cut := congrArg String.toList same
  simp only [String.toList_append, List.append_cancel_left_eq] at cut
  have texts := eq_of_intercalate_eq rfl (apart plain nullable) (apart plain' nullable')
    (by simp [memberTexts, some]) (by simp [memberTexts, some']) (String.toList_inj.mp cut)
  cases nullable with
  | false =>
    cases nullable' with
    | false => simpa [memberTexts] using texts
    | true =>
      have inside : "null" ∈ memberTexts p r members false := by
        rw [texts]
        simp [memberTexts]
      exact absurd (by simpa [memberTexts] using inside) (noNull plain)
  | true =>
    cases nullable' with
    | false =>
      have inside : "null" ∈ memberTexts p r' members' false := by
        rw [← texts]
        simp [memberTexts]
      exact absurd (by simpa [memberTexts] using inside) (noNull plain')
    | true => simpa [memberTexts] using texts

end Texts

/-! ## What is known stays -/

/-- The shape that is spoken of is registered. -/
def Info.KnownIn (r : Registry) : Info → Prop
  | .object s | .union s | .intersection s => (r.shape? s).isSome
  | _ => True

section Known

variable {p : Program} {r r' : Registry}

theorem Info.KnownIn.further {i : Info} (h : i.KnownIn r)
    (more : r.shapes.toList <+: r'.shapes.toList) : i.KnownIn r' := by
  have stays {id : ShapeId} (known : (r.shape? id).isSome) : (r'.shape? id).isSome := by
    obtain ⟨shape, there⟩ := Option.isSome_iff_exists.mp known
    exact Option.isSome_iff_exists.mpr ⟨shape, Registry.shape?_of_prefix more there⟩
  cases i with
  | object | union | intersection => exact stays h
  | _ => trivial

/-- What is known keeps its text. -/
theorem Info.KnownIn.describe_eq {i : Info} (h : i.KnownIn r)
    (more : r.shapes.toList <+: r'.shapes.toList) : i.describe p r' = i.describe p r := by
  have stays {id : ShapeId} (known : (r.shape? id).isSome) : r'.shapeName id = r.shapeName id := by
    obtain ⟨shape, there⟩ := Option.isSome_iff_exists.mp known
    simp [Registry.shapeName, there, Registry.shape?_of_prefix more there]
  cases i with
  | object | union | intersection => exact stays h
  | _ => rfl

theorem objectName_eq {props : List (Name × Info)} (known : ∀ prop ∈ props, prop.2.KnownIn r)
    (more : r.shapes.toList <+: r'.shapes.toList) :
    objectName p r' props = objectName p r props := by
  have parts : props.map (propText p r') = props.map (propText p r) :=
    List.map_congr_left fun prop inside => by
      simp only [propText, (known prop inside).describe_eq more]
  change _ ++ ",".intercalate (props.map (propText p r')) ++ _ = _
  rw [parts]
  rfl

theorem unionName_further {members : List Info} (nullable : Bool)
    (known : ∀ member ∈ members, member.KnownIn r) (more : r.shapes.toList <+: r'.shapes.toList) :
    unionName p r' members nullable = unionName p r members nullable := by
  have parts : members.map (·.describe p r') = members.map (·.describe p r) :=
    List.map_congr_left fun member inside => (known member inside).describe_eq more
  simp only [unionName, parts]

end Known

/-! ## Requests -/

/-- Shapes answer to texts. A request for the shape of an object or a union always has an answer:
if its text is new, a shape with exactly the properties or members that are asked for, and the
first shape of this text otherwise, as it is. So a request and a later one share a shape exactly
if they have one text, and if no part has punctuation of its own, only if their parts have the
same texts. What was asked for under a new text is found whenever it is asked for again, with
exactly its own properties or members. -/
theorem shapes_by_text (p : Program) (r : Resolver) (c : Config) (w : Work) :
    (∀ props, ∃ id w', Compile.shapeOfObject props (.of p r c) w = .ok id w' ∧
      ShapeFor (.of p r c) w (objectName p w.registry props)
        (fun record => .object ⟨objectName p w.registry props, record, props⟩) id w') ∧
    (∀ members nullable, ∃ id w', Compile.shapeOfUnion members nullable (.of p r c) w = .ok id w' ∧
      ShapeFor (.of p r c) w (unionName p w.registry members nullable)
        (fun record => .union (Compile.unionOf p w.registry members nullable record)) id w') ∧
    (∀ props id w₁, Compile.shapeOfObject props (.of p r c) w = .ok id w₁ →
      ∀ w₂, Later (.of p r c) w₁ w₂ →
      ∀ props' id' w₃, Compile.shapeOfObject props' (.of p r c) w₂ = .ok id' w₃ →
      (id = id' ↔ objectName p w.registry props = objectName p w₂.registry props') ∧
      (PlainProps p w.registry props → PlainProps p w₂.registry props' → id = id' →
        props.map (fun prop => (p.text prop.1, prop.2.describe p w.registry)) =
          props'.map (fun prop => (p.text prop.1, prop.2.describe p w₂.registry)))) ∧
    (∀ members nullable id w₁, Compile.shapeOfUnion members nullable (.of p r c) w = .ok id w₁ →
      ∀ w₂, Later (.of p r c) w₁ w₂ →
      ∀ members' nullable' id' w₃,
        Compile.shapeOfUnion members' nullable' (.of p r c) w₂ = .ok id' w₃ →
      (id = id' ↔
        unionName p w.registry members nullable = unionName p w₂.registry members' nullable') ∧
      (PlainMembers p w.registry members → PlainMembers p w₂.registry members' → members ≠ [] →
        members' ≠ [] → id = id' →
        members.map (·.describe p w.registry) = members'.map (·.describe p w₂.registry) ∧
          nullable = nullable')) ∧
    (∀ props, (∀ prop ∈ props, prop.2.KnownIn w.registry) →
      w.registry.shapeByName (objectName p w.registry props) = none →
      ∀ id w₁, Compile.shapeOfObject props (.of p r c) w = .ok id w₁ →
      ∀ w₂, Later (.of p r c) w₁ w₂ →
      Compile.shapeOfObject props (.of p r c) w₂ = .ok id w₂ ∧
        ∃ record, w₂.registry.object? id = some ⟨objectName p w.registry props, record, props⟩) ∧
    (∀ members nullable, (∀ member ∈ members, member.KnownIn w.registry) →
      w.registry.shapeByName (unionName p w.registry members nullable) = none →
      ∀ id w₁, Compile.shapeOfUnion members nullable (.of p r c) w = .ok id w₁ →
      ∀ w₂, Later (.of p r c) w₁ w₂ →
      Compile.shapeOfUnion members nullable (.of p r c) w₂ = .ok id w₂ ∧
        ∃ record, w₂.registry.union? id =
          some (Compile.unionOf p w.registry members nullable record)) := by
  refine ⟨Compile.shapeOfObject_spec (.of p r c) w, Compile.shapeOfUnion_spec (.of p r c) w, ?_, ?_,
    ?_, ?_⟩
  · intro props id w₁ ran w₂ later props' id' w₃ ran'
    obtain ⟨_, _, answer, answers⟩ := Compile.shapeOfObject_spec (.of p r c) w props
    obtain ⟨_, _, answer', answers'⟩ := Compile.shapeOfObject_spec (.of p r c) w₂ props'
    cases ran.symm.trans answer
    cases ran'.symm.trans answer'
    have same := answers.same_iff later answers'
    exact ⟨same, fun plain plain' shared => objectName_parts plain plain' (same.mp shared)⟩
  · intro members nullable id w₁ ran w₂ later members' nullable' id' w₃ ran'
    obtain ⟨_, _, answer, answers⟩ := Compile.shapeOfUnion_spec (.of p r c) w members nullable
    obtain ⟨_, _, answer', answers'⟩ := Compile.shapeOfUnion_spec (.of p r c) w₂ members' nullable'
    cases ran.symm.trans answer
    cases ran'.symm.trans answer'
    have same := answers.same_iff later answers'
    exact ⟨same, fun plain plain' some some' shared =>
      unionName_parts plain plain' some some' (same.mp shared)⟩
  · intro props known isNew id w₁ ran w₂ later
    obtain ⟨_, _, answer, answers⟩ := Compile.shapeOfObject_spec (.of p r c) w props
    obtain ⟨_, _, answer', answers'⟩ := Compile.shapeOfObject_spec (.of p r c) w₂ props
    cases ran.symm.trans answer
    have text := objectName_eq (p := p) known (answers.later.trans later).shapes
    change ShapeFor _ w₂ (objectName p w₂.registry props) _ _ _ at answers'
    rw [text] at answers'
    obtain ⟨rfl, rfl, record, made⟩ := answers.again isNew later answers'
    exact ⟨answer', record, Registry.object?_eq_some_iff.mpr made⟩
  · intro members nullable known isNew id w₁ ran w₂ later
    obtain ⟨_, _, answer, answers⟩ := Compile.shapeOfUnion_spec (.of p r c) w members nullable
    obtain ⟨_, _, answer', answers'⟩ := Compile.shapeOfUnion_spec (.of p r c) w₂ members nullable
    cases ran.symm.trans answer
    have text := unionName_further (p := p) nullable known (answers.later.trans later).shapes
    change ShapeFor _ w₂ (unionName p w₂.registry members nullable) _ _ _ at answers'
    rw [text] at answers'
    obtain ⟨rfl, rfl, record, made⟩ := answers.again isNew later answers'
    exact ⟨answer', record, Registry.union?_eq_some_iff.mpr made⟩

/-- Two objects, each with an arrow in a property of one name; what the arrows return differs. -/
@[irreducible] def twoArrows : Program := (Id.run <| StateT.run (do
  let (first, _) ← Construction.arrow [] [] (some .boolean)
    (.expr (← Construction.expr (.bool true)))
  let (second, _) ← Construction.arrow [] [] (some .text) (.expr (← Construction.text "s"))
  let (p, _) ← Construction.bind "p" none (some (← Construction.object [("f", first)]))
  let (q, _) ← Construction.bind "q" none (some (← Construction.object [("f", second)]))
  Construction.pushEntry p
  Construction.pushEntry q : Building Unit) {}).2.program

/-- The values of the properties of an object. -/
def fieldsOf? : ExprKind → Option (List ExprId)
  | .object fields => some (fields.map (·.2))
  | _ => none

/-- Whether the property of an object is known as the arrow in it. -/
def knownAs (arrow object : EStateM.Result Failure Work (Operand × Frame)) : Option Bool :=
  match arrow, object with
  | .ok (arrow, _) _, .ok (object, _) w => match object.info with
    | .object id => (w.registry.object? id).map fun shape =>
      decide (shape.props.map (·.2) = [arrow.info])
    | _ => none
  | _, _ => none

/-- The second object gets the shape of the first, whose property is not known as the second
arrow. -/
theorem arrows_share_shape : ∃ w n arrow f₁ w₁ object f₂ w₂ id shape,
    Moment (.of twoArrows .ambient {}) w ∧ (twoArrows.expr ⟨5⟩).kind = .object [(n, ⟨3⟩)] ∧
    Emit.expr (.ofDepth 20) ⟨3⟩ topFrame (.of twoArrows .ambient {}) w = .ok (arrow, f₁) w₁ ∧
    Emit.expr (.ofDepth 20) ⟨5⟩ topFrame (.of twoArrows .ambient {}) w = .ok (object, f₂) w₂ ∧
    object.info = .object id ∧ w₂.registry.object? id = some shape ∧
    shape.props ≠ [(n, arrow.info)] := by
  have isObject : fieldsOf? (twoArrows.expr ⟨5⟩).kind = some [⟨3⟩] := by
    decide +kernel
  have lowered : knownAs
      (Emit.expr (.ofDepth 20) ⟨3⟩ topFrame (.of twoArrows .ambient {})
        (Compile.endOf (Compile.entry (.ofDepth 20)) (.of twoArrows .ambient {}) .start))
      (Emit.expr (.ofDepth 20) ⟨5⟩ topFrame (.of twoArrows .ambient {})
        (Compile.endOf (Compile.entry (.ofDepth 20)) (.of twoArrows .ambient {}) .start)) =
      some false := by
    decide +kernel
  have moment := compile_moment 20 twoArrows .ambient {}
  generalize Compile.endOf (Compile.entry (.ofDepth 20)) (.of twoArrows .ambient {}) .start = w
    at lowered moment
  refine ⟨w, ?_⟩
  unfold fieldsOf? at isObject
  unfold knownAs at lowered
  split at isObject
  · rename_i fields isKind
    split at lowered
    · rename_i arrow f₁ w₁ object f₂ w₂ first second
      split at lowered
      · rename_i id isShape
        obtain ⟨shape, known, apart⟩ := Option.map_eq_some_iff.mp lowered
        obtain ⟨⟨n, e⟩, rfl, isArrow⟩ := List.map_eq_singleton_iff.mp (Option.some.inj isObject)
        cases isArrow
        refine ⟨n, arrow, f₁, w₁, object, f₂, w₂, id, shape, moment, isKind, first, second, isShape,
          known, ?_⟩
        intro same
        simp [same] at apart
      · cases lowered
    · cases lowered
  · cases isObject

end ShapeCompiler
