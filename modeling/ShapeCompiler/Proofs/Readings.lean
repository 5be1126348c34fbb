import ShapeCompiler.Proofs.Shapes

/-!
# What a type is read as

A type is lowered again and again while shapes are added. What it becomes can be told from the
shapes alone:

* `Reading`: what a type stands for in a registry, under bindings and inside of interfaces;
* `Reading.unique`: it stands for one thing, as far as the bindings of its own parameters and the
  marks of its own interfaces agree;
* `infoAt_reads`: what lowering gives is the reading, then and in every registry after it.

So two lowerings of a type need not be compared state by state (`ReadAs.unique`).
-/

namespace ShapeCompiler

open Source Code Work

/-! ## Parts of types -/

/-- The second type stands in the first, as a property or a member. What stands in an intersection
does not count: its shape goes by the names of its members. -/
inductive Source.Program.Within (p : Program) : TypeId → TypeId → Prop
  | self (t : TypeId) : p.Within t t
  | object {t u : TypeId} {fields : List (Name × TypeId)} {field : Name × TypeId}
    (isObject : p.types.get t = .object fields) (inside : field ∈ fields)
    (within : p.Within field.2 u) : p.Within t u
  | interface {t u : TypeId} {d : DeclId} {fields : List (Name × TypeId)} {field : Name × TypeId}
    (isInterface : p.types.get t = .interface d) (has : p.interfaceFields d = .ok fields)
    (inside : field ∈ fields) (within : p.Within field.2 u) : p.Within t u
  | union {t u member : TypeId} {members : List TypeId} (isUnion : p.types.get t = .union members)
    (inside : member ∈ members) (within : p.Within member u) : p.Within t u

/-- No type parameter stands in the type, not in its interfaces either. -/
def Source.Program.Closed (p : Program) (t : TypeId) : Prop :=
  ∀ u n, p.Within t u → p.types.get u ≠ .param n

/-- Two places read a type alike: they bind its parameters to the same, and inside the same of its
interfaces. -/
structure AlikeFor (p : Program) (b b' : Bindings) (busy busy' : List DeclId) (t : TypeId) :
    Prop where
  params : ∀ u n, p.Within t u → p.types.get u = .param n → b.lookup n = b'.lookup n
  interfaces : ∀ u d, p.Within t u → p.types.get u = .interface d → (d ∈ busy ↔ d ∈ busy')

namespace AlikeFor

variable {p : Program} {b b' : Bindings} {busy busy' : List DeclId} {t : TypeId}

/-- Bindings do not matter for a type without parameters. -/
theorem of_closed (closed : p.Closed t) : AlikeFor p b b' busy busy t :=
  ⟨fun u n within isParam => absurd isParam (closed u n within), fun _ _ _ _ => .rfl⟩

theorem part {u : TypeId} (h : AlikeFor p b b' busy busy' t)
    (within : ∀ v, p.Within u v → p.Within t v) :
    AlikeFor p b b' busy busy' u :=
  ⟨fun v n there => h.params v n (within v there), fun v d there =>
    h.interfaces v d (within v there)⟩

theorem marked (h : AlikeFor p b b' busy busy' t) (d : DeclId) :
    AlikeFor p b b' (d :: busy) (d :: busy') t := by
  refine ⟨h.params, fun u d' within isInterface => ?_⟩
  rw [List.mem_cons, List.mem_cons, h.interfaces u d' within isInterface]

end AlikeFor

/-! ## Readings -/

/-- What a type without parts stands for. -/
def plainInfo? (p : Program) (t : TypeId) : Option Info :=
  match p.types.get t with
  | .number => some .number
  | .boolean => some .boolean
  | .text => some .text
  | .void => some .void
  | .null | .undefined => some .null
  | .any => some .any
  | .instanceOf d => some (.instanceOf d)
  | .function _ _ _ => some (Compile.closureInfo p t)
  | _ => none

/-- What a union of members stands for. -/
def unionReading? (p : Program) (r : Registry) : List Info × Bool → Option Info
  | ([], _) => some .null
  | ([only], false) => some only
  | (several, nullable) => (r.shapeByName (unionName p r several nullable)).map .union

/-- What stands for the members of an intersection. -/
def membersName (p : Program) (members : List TypeId) : String :=
  ".".intercalate (members.map p.typeName) ++ ".intersection"

/-- What a type stands for in a registry, under bindings, while some interfaces are being
lowered. -/
inductive Reading (p : Program) (r : Registry) (b : Bindings) : List DeclId → TypeId → Info → Prop
  | plain {busy : List DeclId} {t : TypeId} {i : Info} (isPlain : plainInfo? p t = some i) :
    Reading p r b busy t i
  | param {busy : List DeclId} {t : TypeId} {n : Name} {i : Info}
    (isParam : p.types.get t = .param n) (bound : b.lookup n = some i) : Reading p r b busy t i
  | inside {busy : List DeclId} {t : TypeId} {d : DeclId}
    (isInterface : p.types.get t = .interface d)
    (marked : d ∈ busy) : Reading p r b busy t .any
  | interface {busy : List DeclId} {t : TypeId} {d : DeclId} {fields : List (Name × TypeId)}
    {infos : List Info} {id : ShapeId} (isInterface : p.types.get t = .interface d)
    (unmarked : d ∉ busy) (has : p.interfaceFields d = .ok fields)
    (length : infos.length = fields.length)
    (each : ∀ (k : Nat) (field : Name × TypeId) (i : Info), fields[k]? = some field →
    infos[k]? = some i →
      Reading p r b (d :: busy) field.2 i)
    (named : r.shapeByName (objectName p r ((fields.map (·.1)).zip infos)) = some id) :
    Reading p r b busy t (.object id)
  | object {busy : List DeclId} {t : TypeId} {fields : List (Name × TypeId)} {infos : List Info}
    {id : ShapeId} (isObject : p.types.get t = .object fields)
    (length : infos.length = fields.length)
    (each : ∀ (k : Nat) (field : Name × TypeId) (i : Info), fields[k]? = some field →
    infos[k]? = some i →
      Reading p r b busy field.2 i)
    (named : r.shapeByName (objectName p r ((fields.map (·.1)).zip infos)) = some id) :
    Reading p r b busy t (.object id)
  | union {busy : List DeclId} {t : TypeId} {members : List TypeId} {infos : List Info} {i : Info}
    (isUnion : p.types.get t = .union members) (length : infos.length = members.length)
    (nullish : ∀ (k : Nat) (member : TypeId) (i : Info), members[k]? = some member →
    infos[k]? = some i →
      member.isNullish = true → i = .null)
    (each : ∀ (k : Nat) (member : TypeId) (i : Info), members[k]? = some member →
    infos[k]? = some i →
      member.isNullish = false → Reading p r b busy member i)
    (named : unionReading? p r (Compile.splitNull infos) = some i) : Reading p r b busy t i
  | intersection {busy : List DeclId} {t : TypeId} {members : List TypeId} {id : ShapeId}
    (isIntersection : p.types.get t = .intersection members)
    (named : r.shapeByName (membersName p members) = some id) :
    Reading p r b busy t (.intersection id)

namespace Reading

variable {p : Program} {r : Registry} {b b' : Bindings}

theorem infos_eq {α : Type} {parts : List α} {infos infos' : List Info}
    (length : infos.length = parts.length) (length' : infos'.length = parts.length)
    (each : ∀ (k : Nat) (part : α) (i i' : Info), parts[k]? = some part → infos[k]? = some i →
    infos'[k]? = some i' → i = i') :
    infos = infos' := by
  refine List.ext_getElem (length.trans length'.symm) fun k inside inside' => ?_
  exact each k (parts[k]) infos[k] infos'[k] (List.getElem?_eq_getElem (by omega))
    (List.getElem?_eq_getElem inside) (List.getElem?_eq_getElem inside')

/-- A type stands for one thing. By induction on the first reading; the second has the same form. -/
theorem unique {busy busy' : List DeclId} {t : TypeId} {i i' : Info} (h : Reading p r b busy t i)
    (h' : Reading p r b' busy' t i') (alike : AlikeFor p b b' busy busy' t) : i = i' := by
  induction h generalizing busy' i' with
  | plain isPlain =>
    cases h' with
    | plain isPlain' => exact Option.some.inj (isPlain.symm.trans isPlain')
    | _ => simp_all [plainInfo?]
  | @param busy t n i isParam bound =>
    cases h' with
    | plain isPlain' => simp [plainInfo?, isParam] at isPlain'
    | param isParam' bound' =>
      cases isParam.symm.trans isParam'
      exact Option.some.inj (bound.symm.trans ((alike.params t n (.self t) isParam).trans bound'))
    | _ => simp_all
  | @inside busy t d isInterface marked =>
    cases h' with
    | plain isPlain' => simp [plainInfo?, isInterface] at isPlain'
    | inside => rfl
    | interface isInterface' unmarked' =>
      cases isInterface.symm.trans isInterface'
      exact absurd ((alike.interfaces t d (.self t) isInterface).mp marked) unmarked'
    | _ => simp_all
  | @interface busy t d fields infos id isInterface unmarked has length each named ih =>
    cases h' with
    | plain isPlain' => simp [plainInfo?, isInterface] at isPlain'
    | inside isInterface' marked' =>
      cases isInterface.symm.trans isInterface'
      exact absurd ((alike.interfaces t d (.self t) isInterface).mpr marked') unmarked
    | interface isInterface' unmarked' has' length' each' named' =>
      cases isInterface.symm.trans isInterface'
      cases has.symm.trans has'
      have same := infos_eq length length' fun k field i i' here there there' =>
        ih k field i here there (each' k field i' here there')
          ((alike.part fun v within =>
            .interface isInterface has (List.mem_of_getElem? here) within).marked d)
      subst same
      exact congrArg Info.object (Option.some.inj (named.symm.trans named'))
    | _ => simp_all
  | @object busy t fields infos id isObject length each named ih =>
    cases h' with
    | plain isPlain' => simp [plainInfo?, isObject] at isPlain'
    | object isObject' length' each' named' =>
      cases isObject.symm.trans isObject'
      have same := infos_eq length length' fun k field i i' here there there' =>
        ih k field i here there (each' k field i' here there')
          (alike.part fun v within => .object isObject (List.mem_of_getElem? here) within)
      subst same
      exact congrArg Info.object (Option.some.inj (named.symm.trans named'))
    | _ => simp_all
  | @union busy t members infos i isUnion length nullish each named ih =>
    cases h' with
    | plain isPlain' => simp [plainInfo?, isUnion] at isPlain'
    | union isUnion' length' nullish' each' named' =>
      cases isUnion.symm.trans isUnion'
      have same := infos_eq length length' fun k member i i' here there there' => by
        cases isNull : member.isNullish with
        | true =>
          exact (nullish k member i here there isNull).trans
            (nullish' k member i' here there' isNull).symm
        | false =>
          exact ih k member i here there isNull (each' k member i' here there' isNull)
            (alike.part fun v within => .union isUnion (List.mem_of_getElem? here) within)
      subst same
      exact Option.some.inj (named.symm.trans named')
    | _ => simp_all
  | intersection isIntersection named =>
    cases h' with
    | plain isPlain' => simp [plainInfo?, isIntersection] at isPlain'
    | intersection isIntersection' named' =>
      cases isIntersection.symm.trans isIntersection'
      exact congrArg Info.intersection (Option.some.inj (named.symm.trans named'))
    | _ => simp_all

end Reading

/-! ## What is known stays -/

section Known

variable {p : Program} {r r' : Registry}

theorem Registry.knownIn_of_shapeByName {name : String} {id : ShapeId}
    (h : r.shapeByName name = some id) : (r.shape? id).isSome := by
  obtain ⟨shape, there, _⟩ := Registry.shape?_of_shapeByName h
  exact Option.isSome_iff_exists.mpr ⟨shape, there⟩

/-- The parameters that stand in a type are bound to what is known. -/
def Bindings.KnownFor (p : Program) (r : Registry) (b : Bindings) (t : TypeId) : Prop :=
  ∀ u n i, p.Within t u → p.types.get u = .param n → b.lookup n = some i → i.KnownIn r

theorem Bindings.knownFor_of_closed {b : Bindings} {t : TypeId} (closed : p.Closed t) :
    b.KnownFor p r t :=
  fun u n _ within isParam => absurd isParam (closed u n within)

end Known

/-! ## Lowering reads -/

/-- The type is read as this, now and from now on. -/
structure ReadAs (s : Setup) (w : Work) (b : Bindings) (busy : List DeclId)
    (t : TypeId) (i : Info) :
    Prop where
  known : i.KnownIn w.registry
  reading : ∀ r : Registry, w.registry.shapes.toList <+: r.shapes.toList →
    Reading s.program r b busy t i

namespace ReadAs

variable {s : Setup} {w w' : Work} {b b' : Bindings} {busy busy' : List DeclId} {t : TypeId}
  {i i' : Info}

theorem later (h : ReadAs s w b busy t i) (later : Later s w w') : ReadAs s w' b busy t i :=
  ⟨h.known.further later.shapes, fun r more => h.reading r (later.shapes.trans more)⟩

/-- Whenever a type is lowered, it is lowered to the same. -/
theorem unique (h : ReadAs s w b busy t i) (h' : ReadAs s w b' busy' t i')
    (alike : AlikeFor s.program b b' busy busy' t) : i = i' :=
  (h.reading w.registry (List.prefix_refl _)).unique
    (h'.reading w.registry (List.prefix_refl _)) alike

end ReadAs

namespace Compile

variable {s : Setup} {w : Work}

/-- The parts of types are read. -/
def Reads (s : Setup) (part : PartInfo) : Prop :=
  ∀ {w : Work} (b : Bindings) (t : TypeId), Moment s w → b.KnownFor s.program w.registry t →
    Ends s w (part b t) fun i w' => ReadAs s w' b w.interfacesInProgress t i

/-- The properties of an object are read, and the shape of this name is the one found. -/
def ObjectRead (s : Setup) (w : Work) (b : Bindings) (busy : List DeclId)
    (fields : List (Name × TypeId)) (id : ShapeId) : Prop :=
  ∃ infos : List Info, infos.length = fields.length ∧
    (∀ (k : Nat) (field : Name × TypeId) (i : Info), fields[k]? = some field → infos[k]? = some i →
      ReadAs s w b busy field.2 i) ∧
    ∀ r : Registry, w.registry.shapes.toList <+: r.shapes.toList →
      r.shapeByName (objectName s.program r ((fields.map (·.1)).zip infos)) = some id

theorem of_forall₂ {α β : Type} {R : α → β → Prop} {as : List α} {bs : List β}
    (all : List.Forall₂ R as bs) {k : Nat} {a : α} {b : β} (here : as[k]? = some a)
    (there : bs[k]? = some b) : R a b :=
  List.forall₂_zip all (List.mem_of_getElem? (i := k)
    (by simp [List.getElem?_zip_eq_some, here, there]))

theorem shapeOfObject_ends (moment : Moment s w) (props : List (Name × Info)) :
    Ends s w (shapeOfObject props) fun id w' =>
      w'.registry.shapeByName (objectName s.program w.registry props) = some id := by
  refine ((shapeOfObject_walks props).ends moment).ran.mono fun id w' _ ran => ?_
  obtain ⟨_, _, answer, answers⟩ := shapeOfObject_spec s w props
  cases ran.1.symm.trans answer
  exact answers.found

theorem shapeOfUnion_ends (moment : Moment s w) (members : List Info) (nullable : Bool) :
    Ends s w (shapeOfUnion members nullable) fun id w' =>
      w'.registry.shapeByName (unionName s.program w.registry members nullable) = some id := by
  refine ((shapeOfUnion_walks members nullable).ends moment).ran.mono fun id w' _ ran => ?_
  obtain ⟨_, _, answer, answers⟩ := shapeOfUnion_spec s w members nullable
  cases ran.1.symm.trans answer
  exact answers.found

theorem shapeOfIntersection_ends (moment : Moment s w) (segments : List Segment)
    (fields : List (Name × Info)) : Ends s w (shapeOfIntersection segments fields) fun id w' =>
      w'.registry.shapeByName (intersectionName segments) = some id := by
  refine ((shapeOfIntersection_walks segments fields).ends moment).ran.mono fun id w' _ ran => ?_
  obtain ⟨_, _, answer, answers⟩ := shapeOfIntersection_spec s w segments fields
  cases ran.1.symm.trans answer
  exact answers.found

theorem splitNull_subset (infos : List Info) : ∀ i ∈ (splitNull infos).1, i ∈ infos := by
  induction infos with
  | nil => simp [splitNull]
  | cons first rest ih =>
    intro i inside
    simp only [splitNull] at inside
    split at inside
    · exact List.mem_cons_of_mem _ (ih i inside)
    · rcases List.mem_cons.mp inside with rfl | inside
      · exact List.mem_cons_self
      · exact List.mem_cons_of_mem _ (ih i (List.mem_of_mem_filter inside))

section Parts

variable {part : PartInfo} (hp : Reads s part)

include hp

theorem objectInfoBy_reads (moment : Moment s w) (b : Bindings) (fields : List (Name × TypeId))
    (known : ∀ field ∈ fields, b.KnownFor s.program w.registry field.2) :
    Ends s w (objectInfoBy part b fields) fun i w' =>
      ∃ id, i = .object id ∧ ObjectRead s w' b w.interfacesInProgress fields id := by
  have each (field : Name × TypeId) (inside : field ∈ fields) (w' : Work) (there : Reaches s w w') :
      Ends s w' (do return (field.1, ← part b field.2) : Compile (Name × Info)) fun prop w' =>
        prop.1 = field.1 ∧ ReadAs s w' b w.interfacesInProgress field.2 prop.2 := by
    rw [← there.interfaces]
    exact (hp b field.2 (moment.later there.later) fun u n i within isParam bound =>
      (known field inside u n i within isParam bound).further there.later.shapes).bind
        fun info _ _ read => .pure ⟨rfl, read⟩
  have stays (field : Name × TypeId) (prop : Name × Info) (w₁ w₂ : Work)
      (here : prop.1 = field.1 ∧ ReadAs s w₁ b w.interfacesInProgress field.2 prop.2)
      (there : Reaches s w₁ w₂) :
      prop.1 = field.1 ∧ ReadAs s w₂ b w.interfacesInProgress field.2 prop.2 :=
    ⟨here.1, here.2.later there.later⟩
  refine (Ends.mapM_since each stays).bind fun props w₁ there₁ all => ?_
  refine (shapeOfObject_ends (moment.later there₁.later) props).bind fun id w₂ there₂ found => ?_
  refine .pure ⟨id, rfl, props.map (·.2), ?_, ?_, ?_⟩
  · simpa using all.length_eq.symm
  · intro k field i here there
    rw [List.getElem?_map] at there
    obtain ⟨prop, isProp, rfl⟩ := Option.map_eq_some_iff.mp there
    exact (of_forall₂ all here isProp).2.later there₂.later
  · intro r more
    have names : fields.map (·.1) = props.map (·.1) := by
      rw [← List.forall₂_eq_eq_eq, List.forall₂_map_left_iff, List.forall₂_map_right_iff]
      exact all.imp fun _ _ here => here.1.symm
    have known₁ : ∀ prop ∈ props, prop.2.KnownIn w₁.registry :=
      forall_mem_of_forall₂ all fun _ _ here => here.2.known
    rw [names, List.zip_map', List.map_id', objectName_eq known₁ (there₂.later.shapes.trans more)]
    exact Registry.shapeByName_of_prefix more found

/-- Inside of its own properties an interface is marked. -/
theorem interfaceInfoBy_reads (lowers : Lowers s part) (moment : Moment s w) (b : Bindings)
    {t : TypeId} {d : DeclId} (isInterface : s.program.types.get t = .interface d)
    (known : b.KnownFor s.program w.registry t) :
    Ends s w (interfaceInfoBy part b d) fun i w' =>
      ReadAs s w' b w.interfacesInProgress t i := by
  refine ((interfaceInfoBy_walks lowers b d).ends moment).ran.mono fun i w' _ ran => ?_
  replace ran := ran.1
  by_cases marked : d ∈ w.interfacesInProgress
  · change (if d ∈ w.interfacesInProgress then _ else _ : Compile Info) s w = _ at ran
    rw [if_pos marked] at ran
    cases ran
    exact ⟨trivial, fun _ _ => .inside isInterface marked⟩
  · have moment' : Moment s { w with interfacesInProgress := d :: w.interfacesInProgress } :=
      moment.later (Step.inProgress _).later
    have ends : Ends s { w with interfacesInProgress := d :: w.interfacesInProgress }
        (asks (·.interfaceFields d) >>= objectInfoBy part b) fun i w' =>
          ∃ fields id, s.program.interfaceFields d = .ok fields ∧ i = .object id ∧
            ObjectRead s w' b (d :: w.interfacesInProgress) fields id :=
      asks_bind fun fields has => (objectInfoBy_reads hp moment' b fields
        fun field inside u n i within => known u n i
          (.interface isInterface has inside within)).mono
          fun i w' _ ⟨id, isObject, read⟩ => ⟨fields, id, has, isObject, read⟩
    rw [interfaceInfoBy_apply b marked] at ran
    cases inner : (asks (·.interfaceFields d) >>= objectInfoBy part b : Compile Info) s
        { w with interfacesInProgress := d :: w.interfacesInProgress } with
    | error e w₁ =>
      rw [inner] at ran
      cases ran
    | ok i₁ w₁ =>
      rw [inner] at ran
      cases ran
      obtain ⟨fields, id, has, rfl, infos, length, each, named⟩ := (ends.of_ok inner).2
      refine ⟨Registry.knownIn_of_shapeByName (named _ (List.prefix_refl _)), fun r more => ?_⟩
      exact .interface isInterface marked has length
        (fun k field i here there => (each k field i here there).reading r more) (named r more)

/-- The members of a union are read, those that are null apart. -/
theorem unionInfoBy_reads (moment : Moment s w) (b : Bindings) {t : TypeId} {members : List TypeId}
    (isUnion : s.program.types.get t = .union members) (known : b.KnownFor s.program w.registry t) :
    Ends s w (unionInfoBy part b members) fun i w' =>
      ReadAs s w' b w.interfacesInProgress t i := by
  have each (member : TypeId) (inside : member ∈ members) (w' : Work) (there : Reaches s w w') :
      Ends s w' (if member.isNullish then pure Info.null else part b member) fun i w' =>
        i.KnownIn w'.registry ∧ (member.isNullish = true → i = .null) ∧
          (member.isNullish = false → ReadAs s w' b w.interfacesInProgress member i) := by
    split
    · rename_i isNull
      exact .pure ⟨trivial, fun _ => rfl, fun other => by simp [isNull] at other⟩
    · rename_i isNull
      rw [← there.interfaces]
      refine (hp b member (moment.later there.later) fun u n i within isParam bound => ?_).mono
        fun i w' _ read => ⟨read.known, fun other => absurd other isNull, fun _ => read⟩
      exact (known u n i (.union isUnion inside within) isParam bound).further there.later.shapes
  have stays (member : TypeId) (i : Info) (w₁ w₂ : Work)
      (here : i.KnownIn w₁.registry ∧ (member.isNullish = true → i = .null) ∧
        (member.isNullish = false → ReadAs s w₁ b w.interfacesInProgress member i))
      (there : Reaches s w₁ w₂) :
      i.KnownIn w₂.registry ∧ (member.isNullish = true → i = .null) ∧
        (member.isNullish = false → ReadAs s w₂ b w.interfacesInProgress member i) :=
    ⟨here.1.further there.later.shapes, here.2.1, fun isNull => (here.2.2 isNull).later there.later⟩
  refine (Ends.mapM_since each stays).bind fun infos w₁ there₁ all => ?_
  have known₁ : ∀ i ∈ infos, i.KnownIn w₁.registry :=
    forall_mem_of_forall₂ all fun _ _ here => here.1
  have read (i : Info) (w₂ : Work) (later : Later s w₁ w₂) (isKnown : i.KnownIn w₂.registry)
      (named : ∀ r : Registry, w₂.registry.shapes.toList <+: r.shapes.toList →
        unionReading? s.program r (splitNull infos) = some i) :
      ReadAs s w₂ b w.interfacesInProgress t i :=
    ⟨isKnown, fun r more => .union isUnion all.length_eq.symm
      (fun k member i here there => (of_forall₂ all here there).2.1)
      (fun k member i here there isNull => ((of_forall₂ all here there).2.2 isNull).reading r
        (later.shapes.trans more)) (named r more)⟩
  split
  · rename_i split
    exact .pure (read .null w₁ .same trivial fun r _ => by rw [split]; rfl)
  · rename_i only split
    have inside : only ∈ infos := splitNull_subset infos only (by simp [split])
    exact .pure (read only w₁ .same (known₁ only inside) fun r _ => by rw [split]; rfl)
  · rename_i several nullable _ _ split
    have inside : ∀ i ∈ several, i ∈ infos :=
      fun i there => splitNull_subset infos i (by simpa [split])
    have moment₁ := moment.later there₁.later
    refine (shapeOfUnion_ends moment₁ several nullable).bind fun id w₂ there₂ found => ?_
    refine .pure (read (.union id) w₂ there₂.later (Registry.knownIn_of_shapeByName found) ?_)
    intro r more
    have named : r.shapeByName (unionName s.program r several nullable) = some id := by
      rw [unionName_further _ (fun i there => known₁ i (inside i there))
        (there₂.later.shapes.trans more)]
      exact Registry.shapeByName_of_prefix more found
    rw [split]
    simp only [unionReading?, named, Option.map_some]

omit hp in
/-- The name of an intersection lists the names of its members. -/
theorem segmentsBy_ends (lowers : Lowers s part) (moment : Moment s w) (b : Bindings) (start : Nat)
    (members : List TypeId) : Ends s w (segmentsBy part b start members) fun result _ =>
      result.1.map (·.name) = members.map s.program.typeName := by
  induction members generalizing start w with
  | nil => exact .pure rfl
  | cons t rest ih =>
    refine ((lowers.walks b t).ends moment).bind fun member w₁ there₁ _ => ?_
    have moment₁ := moment.later there₁.later
    refine ((memberFieldsBy_walks lowers member).ends moment₁).bind fun own w₂ there₂ _ => ?_
    refine .program_bind ((ih (moment₁.later there₂.later) _).bind fun result w₃ _ names => ?_)
    exact .pure (by simp [names])

omit hp in
theorem intersectionInfoBy_reads (lowers : Lowers s part) (moment : Moment s w) (b : Bindings)
    {t : TypeId} {members : List TypeId}
    (isIntersection : s.program.types.get t = .intersection members) :
    Ends s w (intersectionInfoBy part b members) fun i w' =>
      ReadAs s w' b w.interfacesInProgress t i := by
  refine (segmentsBy_ends lowers moment b 0 members).bind fun result w₁ there₁ names => ?_
  have isName : intersectionName result.1 = membersName s.program members := by
    simp only [intersectionName, membersName, names]
  refine (shapeOfIntersection_ends (moment.later there₁.later) result.1 result.2).bind
    fun id w₂ there₂ found => ?_
  rw [isName] at found
  exact .pure ⟨Registry.knownIn_of_shapeByName found, fun r more =>
    .intersection isIntersection (Registry.shapeByName_of_prefix more found)⟩

end Parts

/-- By induction on the depth: the parts of a type are one step less deep. -/
theorem infoAt_reads (depth : Nat) : Reads s (infoAt depth) := by
  induction depth with
  | zero => exact fun b t _ _ => .throw trivial
  | succ depth ih =>
    intro w b t moment known
    have lowers : Lowers s (infoAt depth) := infoAt_lowers depth
    refine .program_bind ?_
    have plain {i : Info} (isPlain : plainInfo? s.program t = some i)
        (isKnown : i.KnownIn w.registry) : Ends s w (pure i) fun i w' =>
          ReadAs s w' b w.interfacesInProgress t i :=
      .pure ⟨isKnown, fun r _ => .plain isPlain⟩
    split
    case h_9 d isInterface => exact interfaceInfoBy_reads ih lowers moment b isInterface known
    case h_10 fields isObject =>
      refine (objectInfoBy_reads ih moment b fields fun field inside u n i within =>
        known u n i (.object isObject inside within)).mono fun i w' _ read => ?_
      obtain ⟨id, rfl, infos, length, each, named⟩ := read
      refine ⟨Registry.knownIn_of_shapeByName (named _ (List.prefix_refl _)), fun r more => ?_⟩
      exact .object isObject length
        (fun k field i here there => (each k field i here there).reading r more) (named r more)
    case h_11 members isUnion => exact unionInfoBy_reads ih moment b isUnion known
    case h_12 members isIntersection =>
      exact intersectionInfoBy_reads lowers moment b isIntersection
    case h_14 n isParam =>
      split
      · rename_i i bound
        exact .pure ⟨known t n i (.self t) isParam bound, fun r _ => .param isParam bound⟩
      · exact .throw trivial
    all_goals
      rename_i isType
      exact plain (by simp [plainInfo?, isType]) trivial

/-- What lowering a type gives is its reading. -/
theorem infoOf_reads : Reads s infoOf := by
  intro w b t moment known
  have ends := infoAt_reads (typeDepth s.program) b t moment known
  unfold Ends at ends ⊢
  rw [infoOf_apply]
  exact ends

/-- A type without type parameters is read whatever they are bound to. -/
theorem infoOf_closed (moment : Moment s w) (b : Bindings) (t : TypeId) :
    Ends s w (infoOf b t) fun i w' =>
      s.program.Closed t → ReadAs s w' b w.interfacesInProgress t i := by
  by_cases closed : s.program.Closed t
  · exact (infoOf_reads b t moment (Bindings.knownFor_of_closed closed)).mono
      fun _ _ _ read _ => read
  · exact ((infoOf_walks b t).ends moment).mono fun _ _ _ _ isClosed => absurd isClosed closed

end Compile

end ShapeCompiler
