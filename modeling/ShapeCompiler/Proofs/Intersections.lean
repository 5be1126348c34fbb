import ShapeCompiler.Proofs.Layouts

/-!
# Intersections under bindings

The record of an intersection holds the fields of its members one after the other. It is asked for
by the names of the members alone, not by what they are lowered to.

* `Lowered`: the members are lowered under bindings, each with the fields that it brings in;
* `IntersectionShape.Covers`: a shape has these fields, and a segment for each member;
* `Lowered.unique`: members are lowered alike where bindings, interfaces and layouts are the same;
* `intersection_respects_bindings`: a shape covers the members that it was first asked for with, and
  those of a later request if they are lowered alike.

Under other bindings a later request gets the first shape all the same
(`intersection_keeps_first_bindings`).
-/

namespace ShapeCompiler

open Source Code Work

/-! ## Members -/

/-- The members are lowered under bindings, one after the other, each with the fields that it brings
in. -/
inductive Lowered (s : Setup) (depth : Nat) (b : Bindings) :
    List TypeId → List (Info × List (Name × Info)) → Work → Work → Prop
  | nil (w : Work) : Lowered s depth b [] [] w w
  | cons {t : TypeId} {rest : List TypeId} {info : Info} {own : List (Name × Info)}
    {parts : List (Info × List (Name × Info))} {w w₁ w₂ w' : Work}
    (lowers : Compile.infoAt depth b t s w = .ok info w₁)
    (brings : Compile.memberFieldsBy (Compile.infoAt depth) info s w₁ = .ok own w₂)
    (further : Lowered s depth b rest parts w₂ w') :
    Lowered s depth b (t :: rest) ((info, own) :: parts) w w'

/-- The segments of members that begin at a position. -/
def segmentsOf (p : Program) : Nat → List TypeId → List (Info × List (Name × Info)) → List Segment
  | start, t :: rest, (info, own) :: parts =>
    ⟨p.typeName t, info, start, own.length⟩ :: segmentsOf p (start + own.length) rest parts
  | _, _, _ => []

/-- The fields of a shape are those of the members in order, and its segments tell what each member
is and where its fields are. -/
structure IntersectionShape.Covers (p : Program) (members : List TypeId)
    (parts : List (Info × List (Name × Info))) (shape : IntersectionShape) : Prop where
  fields : shape.fields = parts.flatMap (·.2)
  count : shape.segments.length = members.length
  segment : ∀ (k : Nat) (t : TypeId) (info : Info) (own : List (Name × Info)),
    members[k]? = some t → parts[k]? = some (info, own) →
    shape.segments[k]? =
      some ⟨p.typeName t, info, ((parts.take k).flatMap (·.2)).length, own.length⟩

section Segments

variable {p : Program}

theorem length_segmentsOf (start : Nat) {members : List TypeId}
    {parts : List (Info × List (Name × Info))} (same : parts.length = members.length) :
    (segmentsOf p start members parts).length = members.length := by
  induction members generalizing start parts with
  | nil =>
    cases parts with
    | nil => rfl
    | cons => cases same
  | cons t rest ih =>
    cases parts with
    | nil => cases same
    | cons part parts => simp [segmentsOf, ih _ (Nat.succ.inj same)]

theorem getElem?_segmentsOf (start : Nat) {members : List TypeId}
    {parts : List (Info × List (Name × Info))} {k : Nat} {t : TypeId} {info : Info}
    {own : List (Name × Info)} (here : members[k]? = some t)
    (there : parts[k]? = some (info, own)) :
    (segmentsOf p start members parts)[k]? =
      some ⟨p.typeName t, info, start + ((parts.take k).flatMap (·.2)).length, own.length⟩ := by
  induction k generalizing start members parts with
  | zero =>
    cases members with
    | nil => cases here
    | cons t' rest =>
      cases parts with
      | nil => cases there
      | cons part parts =>
        cases here
        cases there
        rfl
  | succ k ih =>
    cases members with
    | nil => cases here
    | cons t' rest =>
      cases parts with
      | nil => cases there
      | cons part parts =>
        simp only [segmentsOf, List.getElem?_cons_succ, List.take_succ_cons, List.flatMap_cons,
          List.length_append] at here there ⊢
        rw [ih (start + part.2.length) here there, Nat.add_assoc]

end Segments

namespace Lowered

variable {s : Setup} {depth : Nat} {b : Bindings} {members : List TypeId}
  {parts : List (Info × List (Name × Info))} {w w' : Work}

theorem length (h : Lowered s depth b members parts w w') : parts.length = members.length := by
  induction h with
  | nil => rfl
  | cons _ _ _ ih => simp [ih]

theorem names (h : Lowered s depth b members parts w w') (start : Nat) :
    (segmentsOf s.program start members parts).map (·.name) = members.map s.program.typeName := by
  induction h generalizing start with
  | nil => rfl
  | cons _ _ _ ih => simp [segmentsOf, ih]

/-- What is made from the members covers them. -/
theorem covers (h : Lowered s depth b members parts w w') (name : String) (record : TyId) :
    IntersectionShape.Covers s.program members parts
      ⟨name, record, parts.flatMap (·.2), segmentsOf s.program 0 members parts⟩ where
  fields := rfl
  count := length_segmentsOf 0 h.length
  segment k t info own here there := by
    rw [getElem?_segmentsOf 0 here there, Nat.zero_add]

theorem member_reaches {t : TypeId} {info : Info} {own : List (Name × Info)} {w₁ w₂ : Work}
    (isInfo : Compile.infoAt depth b t s w = .ok info w₁)
    (brings : Compile.memberFieldsBy (Compile.infoAt depth) info s w₁ = .ok own w₂)
    (moment : Moment s w) : Reaches s w w₂ := by
  have there₁ := (((Compile.infoAt_walks depth b t).ends moment).of_ok isInfo).1
  have moment₁ := moment.later there₁.later
  have there₂ := (((Compile.memberFieldsBy_walks (Compile.infoAt_lowers depth) info).ends
    moment₁).of_ok brings).1
  exact there₁.trans there₂

theorem reaches (h : Lowered s depth b members parts w w') (moment : Moment s w) :
    Reaches s w w' := by
  induction h with
  | nil w => exact .refl w
  | cons isInfo brings _ ih =>
    have there := member_reaches isInfo brings moment
    exact there.trans (ih (moment.later there.later))

end Lowered

/-- Members that are lowered are laid out by counting. -/
theorem Lowered.segmentsBy {s : Setup} {depth : Nat} {b : Bindings} {members : List TypeId}
    {parts : List (Info × List (Name × Info))} {w w' : Work}
    (h : Lowered s depth b members parts w w') (start : Nat) :
    Compile.segmentsBy (Compile.infoAt depth) b start members s w =
      .ok (segmentsOf s.program start members parts, parts.flatMap (·.2)) w' := by
  induction h generalizing start with
  | nil => rfl
  | cons lowers brings _ ih =>
    rw [Compile.segmentsBy, Compile.bind_apply, lowers]
    dsimp only
    rw [Compile.bind_apply, brings]
    dsimp only
    rw [Compile.program_bind_apply, Compile.bind_apply, ih]
    rfl

namespace Compile

variable {s : Setup} {depth : Nat} {b : Bindings}

/-- Laying members out is lowering them and counting. -/
theorem segmentsBy_lowered {members : List TypeId} {start : Nat} {w w' : Work}
    {result : List Segment × List (Name × Info)}
    (ran : segmentsBy (infoAt depth) b start members s w = .ok result w') :
    ∃ parts, Lowered s depth b members parts w w' ∧
      result = (segmentsOf s.program start members parts, parts.flatMap (·.2)) := by
  induction members generalizing start w w' result with
  | nil =>
    cases ran
    exact ⟨[], .nil _, rfl⟩
  | cons t rest ih =>
    obtain ⟨info, w₁, lowers, ran⟩ := of_bind_ok ran
    obtain ⟨own, w₂, brings, ran⟩ := of_bind_ok ran
    rw [program_bind_apply] at ran
    obtain ⟨⟨segments, fields⟩, w₃, ran', ran⟩ := of_bind_ok ran
    cases ran
    obtain ⟨parts, further, same⟩ := ih ran'
    cases same
    exact ⟨(info, own) :: parts, .cons lowers brings further, rfl⟩

/-- A request for an intersection lowers the members and asks for the shape of their names. -/
theorem intersectionInfoBy_ok {members : List TypeId} {w w' : Work} {i : Info} (moment : Moment s w)
    (ran : intersectionInfoBy (infoAt depth) b members s w = .ok i w') :
    ∃ id parts wm, i = .intersection id ∧ Lowered s depth b members parts w wm ∧ Reaches s wm w' ∧
      ShapeFor s wm (membersName s.program members) (fun record => .intersection
        ⟨membersName s.program members, record, parts.flatMap (·.2),
          segmentsOf s.program 0 members parts⟩) id w' := by
  obtain ⟨result, wm, ran', ran⟩ := of_bind_ok ran
  obtain ⟨parts, lowered, rfl⟩ := segmentsBy_lowered ran'
  obtain ⟨id, w₁, asked, ran⟩ := of_bind_ok ran
  cases ran
  have isName : intersectionName (segmentsOf s.program 0 members parts) =
      membersName s.program members := by
    simp only [intersectionName, membersName, lowered.names]
  obtain ⟨id', w₂, answer, answers⟩ := shapeOfIntersection_spec s wm
    (segmentsOf s.program 0 members parts) (parts.flatMap (·.2))
  have moment' : Moment s wm := moment.later (lowered.reaches moment).later
  have there := ((shapeOfIntersection_walks _ _).ends moment').of_ok answer
  cases asked.symm.trans answer
  rw [isName] at answers
  exact ⟨id, parts, wm, rfl, lowered, there.1, answers⟩

end Compile

/-! ## The same members again -/

namespace Registry

variable {r r' : Registry} {id : ShapeId}

end Registry

/-- The layouts that were recorded stay. -/
def Work.KeepsLayouts (w w' : Work) : Prop :=
  ∀ cls layout, w.layouts.get? cls = some layout → w'.layouts.get? cls = some layout

namespace Compile

variable {s : Setup} {w w₁ v v₁ : Work} {depth depth' : Nat} {info : Info}
  {own own' : List (Name × Info)}

theorem of_objectShape_ok {id : ShapeId} {shape : ObjectShape}
    (ran : objectShape id s w = .ok shape w₁) :
    w₁ = w ∧ w.registry.shape? id = some (.object shape) := by
  simp only [objectShape, registry_bind_apply] at ran
  cases found : w.registry.object? id with
  | none =>
    rw [found] at ran
    cases ran
  | some shape' =>
    rw [found] at ran
    cases ran
    exact ⟨rfl, Registry.object?_eq_some_iff.mp found⟩

theorem of_intersectionShape_ok {id : ShapeId} {shape : IntersectionShape}
    (ran : intersectionShape id s w = .ok shape w₁) :
    w₁ = w ∧ w.registry.shape? id = some (.intersection shape) := by
  simp only [intersectionShape, registry_bind_apply] at ran
  cases found : w.registry.intersection? id with
  | none =>
    rw [found] at ran
    cases ran
  | some shape' =>
    rw [found] at ran
    cases ran
    exact ⟨rfl, Registry.intersection?_eq_some_iff.mp found⟩

/-- What is lowered to the same brings in the same fields. -/
theorem memberFieldsBy_again (moment : Moment s w)
    (ran : memberFieldsBy (infoAt depth) info s w = .ok own w₁) (later : Later s w₁ v)
    (kept : w₁.KeepsLayouts v) (ran' : memberFieldsBy (infoAt depth') info s v = .ok own' v₁) :
    own' = own := by
  cases info with
  | instanceOf c =>
    obtain ⟨layout, w₂, isLayout, ran⟩ := of_bind_ok ran
    obtain ⟨layout', v₂, isLayout', ran'⟩ := of_bind_ok ran'
    have known := ((layoutBy_ends (infoAt_lowers depth) moment c).of_ok isLayout).2.1
    cases ran
    cases ran'
    cases isLayout'.symm.trans (layoutBy_known (kept c layout known))
    rfl
  | object id =>
    obtain ⟨shape, w₂, isShape, done⟩ := of_bind_ok ran
    obtain ⟨shape', v₂, isShape', done'⟩ := of_bind_ok ran'
    obtain ⟨rfl, known⟩ := of_objectShape_ok isShape
    obtain ⟨rfl, known'⟩ := of_objectShape_ok isShape'
    cases done
    cases done'
    cases (Registry.shape?_of_prefix later.shapes known).symm.trans known'
    rfl
  | intersection id =>
    obtain ⟨shape, w₂, isShape, done⟩ := of_bind_ok ran
    obtain ⟨shape', v₂, isShape', done'⟩ := of_bind_ok ran'
    obtain ⟨rfl, known⟩ := of_intersectionShape_ok isShape
    obtain ⟨rfl, known'⟩ := of_intersectionShape_ok isShape'
    cases done
    cases done'
    cases (Registry.shape?_of_prefix later.shapes known).symm.trans known'
    rfl
  | _ =>
    cases ran
    cases ran'
    rfl

end Compile

namespace Lowered

variable {s : Setup} {depth depth' : Nat} {b b' : Bindings} {members : List TypeId}
  {parts parts' : List (Info × List (Name × Info))} {w w' v v' : Work}

/-- Where bindings, interfaces and layouts are the same, members are lowered alike. By induction on
the first time; between lowering a member for the first and for the second time nothing is taken
back. -/
theorem unique (h : Lowered s depth b members parts w w') (moment : Moment s w)
    (later : Later s w' v) (kept : w'.KeepsLayouts v)
    (h' : Lowered s depth' b' members parts' v v')
    (known : ∀ t ∈ members, b.KnownFor s.program w.registry t)
    (known' : ∀ t ∈ members, b'.KnownFor s.program v.registry t)
    (alike : ∀ t ∈ members,
      AlikeFor s.program b b' w.interfacesInProgress v.interfacesInProgress t) :
      parts' = parts := by
  induction h generalizing parts' v with
  | nil w =>
    cases h'
    rfl
  | @cons t rest info own parts w w₁ w₂ w' isInfo brings further ih =>
    cases h' with
    | @cons _ _ info' own' parts' _ v₁ v₂ _ isInfo' brings' further' =>
      have momentV := moment.later ((Lowered.cons isInfo brings further).reaches moment
        |>.later.trans later)
      -- the first member, and what has been since
      have here : t ∈ t :: rest := List.mem_cons_self
      obtain ⟨there₁, read⟩ := (Compile.infoAt_reads depth b t moment (known t here)).of_ok isInfo
      obtain ⟨thereV₁, read'⟩ := (Compile.infoAt_reads depth' b' t momentV (known' t here)).of_ok
        isInfo'
      have moment₁ := moment.later there₁.later
      have momentV₁ := momentV.later thereV₁.later
      have there₂ := (((Compile.memberFieldsBy_walks (Compile.infoAt_lowers depth) info).ends
        moment₁).of_ok brings).1
      have thereV₂ := (((Compile.memberFieldsBy_walks (Compile.infoAt_lowers depth') info').ends
        momentV₁).of_ok brings').1
      have thereRest := further.reaches (moment₁.later there₂.later)
      have since : Later s w₂ v := thereRest.later.trans later
      obtain rfl : info = info' := (read.later
        (there₂.later.trans (since.trans thereV₁.later))).unique
        read' (alike t here)
      obtain rfl : own' = own := Compile.memberFieldsBy_again moment₁ brings
        (since.trans thereV₁.later)
        (fun cls layout recorded => thereV₁.layouts cls layout
          (kept cls layout (thereRest.layouts cls layout recorded))) brings'
      -- the others
      have thereV := thereV₁.trans thereV₂
      have same := ih (moment₁.later there₂.later) (later.trans thereV.later)
        (fun cls layout recorded => thereV.layouts cls layout (kept cls layout recorded)) further'
        (fun t inside u n i within isParam bound => (known t (List.mem_cons_of_mem _ inside) u n i
          within isParam bound).further (there₁.trans there₂).later.shapes)
        (fun t inside u n i within isParam bound => (known' t (List.mem_cons_of_mem _ inside) u n i
          within isParam bound).further thereV.later.shapes)
        (fun t inside => by
          rw [(there₁.trans there₂).interfaces, thereV.interfaces]
          exact alike t (List.mem_cons_of_mem _ inside))
      rw [same]

end Lowered

/-! ## Requests -/

/-- Intersections. A request for an intersection that succeeds lowers the members under the bindings
in force and asks for the shape of their names. If there is none yet, the shape it gets has the
fields of the members in order and a segment for each, then and from then on; else it gets the one
that is there, as it is. A later request gets the same shape exactly if its members have the same
names. If they are the same members, under bindings and inside of interfaces that read them alike,
and no class has been laid out anew since, then they are lowered to the same, so that the shape is
right for the later request as well. -/
theorem intersection_respects_bindings {s : Setup} {depth : Nat} {b : Bindings}
    {members : List TypeId} {w w' : Work} {i : Info} (moment : Moment s w)
    (known : ∀ t ∈ members, b.KnownFor s.program w.registry t)
    (ran : Compile.intersectionInfoBy (Compile.infoAt depth) b members s w = .ok i w') :
    ∃ id parts wm, i = .intersection id ∧ Lowered s depth b members parts w wm ∧
      (wm.registry.shapeByName (membersName s.program members) = none → ∀ v, Later s w' v →
        ∃ shape, v.registry.intersection? id = some shape ∧ shape.Covers s.program members parts) ∧
      (∀ first, wm.registry.shapeByName (membersName s.program members) = some first →
        id = first ∧ w' = wm) ∧
      ∀ v v' depth' b' members' j, Later s w' v →
        Compile.intersectionInfoBy (Compile.infoAt depth') b' members' s v = .ok j v' →
        (j = i ↔ membersName s.program members' = membersName s.program members) ∧
        (members' = members → w'.KeepsLayouts v →
          (∀ t ∈ members, b'.KnownFor s.program v.registry t) →
          (∀ t ∈ members,
            AlikeFor s.program b b' w.interfacesInProgress v.interfacesInProgress t) →
          j = i ∧ ∃ vm, Lowered s depth' b' members parts v vm) := by
  obtain ⟨id, parts, wm, rfl, lowered, there, answers⟩ := Compile.intersectionInfoBy_ok moment ran
  refine ⟨id, parts, wm, rfl, lowered, ?_, ?_, ?_⟩
  · intro new v later
    obtain ⟨record, made⟩ := answers.new new
    refine ⟨_, Registry.intersection?_eq_some_iff.mpr ?_,
      lowered.covers (membersName s.program members) record⟩
    exact Registry.shape?_of_prefix later.shapes made
  · intro first isFirst
    obtain ⟨same, unchanged⟩ := answers.old first isFirst
    exact ⟨same.symm, unchanged⟩
  · intro v v' depth' b' members' j later ran'
    have moment' : Moment s v := moment.later
      (((lowered.reaches moment).trans there).later.trans later)
    obtain ⟨id', parts', vm, rfl, lowered', there', answers'⟩ :=
      Compile.intersectionInfoBy_ok moment' ran'
    have same_iff := answers.same_iff (later.trans (lowered'.reaches moment').later) answers'
    have named : Info.intersection id' = .intersection id ↔
        membersName s.program members' = membersName s.program members := by
      rw [Info.intersection.injEq, eq_comm, same_iff, eq_comm]
    refine ⟨named, ?_⟩
    rintro rfl kept known' alike
    have same := lowered.unique moment (there.later.trans later)
      (fun cls layout recorded => kept cls layout (there.layouts cls layout recorded)) lowered'
      known known' alike
    exact ⟨named.mpr rfl, vm, same ▸ lowered'⟩

/-- A generic function that gives its parameter to a variable of an intersection, and a call of
it. -/
@[irreducible] def genericMember : Program := (Id.run <| StateT.run (do
  let t ← Construction.paramType "T"
  let members ← Construction.intersectionType [t, ← Construction.objectType []]
  let x ← Construction.param "x" t
  let (y, _) ← Construction.bind "y" (some members) (some (← Construction.ident "x"))
  let g ← Construction.function "g" ["T"] [x] (some .void) [y]
  Construction.pushEntry (← Construction.stmt (.function g))
  let call ← Construction.expr (.call (← Construction.ident "g")
    [← Construction.expr (.bool true)] none)
  Construction.pushEntry (← Construction.stmt (.expr call)) : Building Unit) {}).2.program

/-- The type parameter stands for this. -/
def standingFor (i : Info) : Bindings := { own := ⟨[(⟨1⟩, i)]⟩ }

theorem standingFor_lookup {i j : Info} {n : Name} (bound : (standingFor i).lookup n = some j) :
    j = i := by
  by_cases same : (⟨1⟩ : Name) = n
  · simp only [standingFor, Bindings.lookup, Bindings.layers, List.findSome?_cons, Table.get?,
      Table.find?, if_pos same] at bound
    exact (Option.some.inj bound).symm
  · simp [standingFor, Bindings.lookup, Bindings.layers, Table.get?, Table.find?, same] at bound

theorem standingFor_knownFor {p : Program} {r : Registry} {i : Info}
    (known : i.KnownIn r) (t : TypeId) :
    (standingFor i).KnownFor p r t :=
  fun _ _ _ _ _ bound => standingFor_lookup bound ▸ known

/-- Whether the name is new once the members are lowered, the fields that they are lowered to, and
those of the shape that the request gets. -/
def requested? (b : Bindings) (w : Work) :
    Option (Bool × List (Name × Info) × List (Name × Info)) :=
  match Compile.segmentsBy (Compile.infoAt 5) b 0 [⟨7⟩, ⟨8⟩] (.of genericMember .ambient {}) w with
  | .ok (_, fields) wm =>
    match Compile.intersectionInfoBy (Compile.infoAt 5) b [⟨7⟩, ⟨8⟩]
        (.of genericMember .ambient {}) w with
    | .ok (.intersection id) w' => (w'.registry.intersection? id).map fun shape =>
      ((wm.registry.shapeByName (membersName genericMember [⟨7⟩, ⟨8⟩])).isNone,
        fields, shape.fields)
    | _ => none
  | .error _ _ => none

theorem of_requested? {b : Bindings} {w : Work} {new : Bool} {fields held : List (Name × Info)}
    (h : requested? b w = some (new, fields, held)) : ∃ segments wm id w' shape,
      Compile.segmentsBy (Compile.infoAt 5) b 0 [⟨7⟩, ⟨8⟩] (.of genericMember .ambient {}) w =
        .ok (segments, fields) wm ∧
      (wm.registry.shapeByName (membersName genericMember [⟨7⟩, ⟨8⟩])).isNone = new ∧
      Compile.intersectionInfoBy (Compile.infoAt 5) b [⟨7⟩, ⟨8⟩] (.of genericMember .ambient {}) w =
        .ok (.intersection id) w' ∧
      w'.registry.intersection? id = some shape ∧ shape.fields = held := by
  unfold requested? at h
  split at h
  · rename_i segments fields' wm ran
    split at h
    · rename_i id w' ran'
      obtain ⟨shape, known, facts⟩ := Option.map_eq_some_iff.mp h
      cases facts
      exact ⟨segments, wm, id, w', shape, ran, rfl, ran', known, rfl⟩
    · cases h
  · cases h

/-- For a boolean the first request gets a shape with a boolean. -/
theorem intersection_respects_bindings_genericMember : ∃ id w' shape parts wm,
    Compile.intersectionInfoBy (Compile.infoAt 5) (standingFor .boolean) [⟨7⟩, ⟨8⟩]
      (.of genericMember .ambient {}) .start = .ok (.intersection id) w' ∧
    Lowered (.of genericMember .ambient {}) 5 (standingFor .boolean) [⟨7⟩, ⟨8⟩] parts .start wm ∧
    w'.registry.intersection? id = some shape ∧ shape.Covers genericMember [⟨7⟩, ⟨8⟩] parts ∧
    shape.fields = [(.empty, .boolean)] := by
  have asked : requested? (standingFor .boolean) .start =
      some (true, [(.empty, .boolean)], [(.empty, .boolean)]) := by
    decide +kernel
  obtain ⟨segments, wm, id, w', shape, ran, new, ran', known, holds⟩ := of_requested? asked
  have isKnown : Info.KnownIn Work.start.registry .boolean := trivial
  obtain ⟨id', parts, wm', isInfo, lowered, covers, _⟩ := intersection_respects_bindings
    (s := .of genericMember .ambient {}) (by exact .same)
    (fun t _ => standingFor_knownFor isKnown t) ran'
  cases isInfo
  injection ran.symm.trans (lowered.segmentsBy 0) with _ sameWork
  subst sameWork
  obtain ⟨shape', known', right⟩ := covers (Option.isNone_iff_eq_none.mp new) w' .same
  cases known.symm.trans known'
  exact ⟨id, w', shape, parts, wm, ran', lowered, known, right, holds⟩

/-- The state once the function is declared and called with a boolean. -/
def genericMemberWork : Work :=
  Compile.endOf ((Lowering.ofDepth 20).block genericMember.entry topFrame)
    (.of genericMember .ambient {}) .start

/-- For a text the members are lowered to a text after that, but the request gets the shape with a
boolean. -/
theorem intersection_keeps_first_bindings : ∃ id w' shape parts wm,
    Reached (.of genericMember .ambient {}) genericMemberWork ∧
    Compile.intersectionInfoBy (Compile.infoAt 5) (standingFor .text) [⟨7⟩, ⟨8⟩]
      (.of genericMember .ambient {}) genericMemberWork = .ok (.intersection id) w' ∧
    w'.registry.intersection? id = some shape ∧
    Lowered (.of genericMember .ambient {}) 5 (standingFor .text) [⟨7⟩, ⟨8⟩] parts
    genericMemberWork wm ∧
    parts.flatMap (·.2) = [(.empty, .text)] ∧ shape.fields = [(.empty, .boolean)] := by
  have asked : requested? (standingFor .text) genericMemberWork =
      some (false, [(.empty, .text)], [(.empty, .boolean)]) := by
    decide +kernel
  obtain ⟨segments, wm, id, w', shape, ran, _, ran', known, holds⟩ := of_requested? asked
  obtain ⟨parts, lowered, same⟩ := Compile.segmentsBy_lowered ran
  injection same with _ isFields
  have reached : Reached (.of genericMember .ambient {}) genericMemberWork :=
    .goes .start (Moment.reaches_top (by exact .same) 20 genericMember.entry)
  exact ⟨id, w', shape, parts, wm, reached, ran', known, lowered, isFields.symm, holds⟩

end ShapeCompiler
