import ShapeCompiler.Proofs.Intersections
import ShapeCompiler.Proofs.UnknownValues

/-!
# Into intersections and out of them

* `IntersectionShape.TakenFrom`: from which field on a member is taken out;
* `Stage.HasIntersection.own_fields`: of a member of the intersection, these are its own fields;
* `Stage.hasIntersection_of_request`: an intersection that is asked for has the fields of its
  members;
* `Emit.fill_achieves`: a new record is filled field by field;
* `Emit.intersectionInit_achieves`: the fields of an intersection are the properties of these names;
* `Emit.intersectionExtract_achieves`: what is taken out holds fields that follow each other;
* `intersection_roundTrip`: a member comes out with the properties that went in under its names;
* `projection_by_types`: what is taken out goes by the types of the fields, in order.

A record that has the name of another one keeps the fields of that one (`environment_record_taken`),
and nobody looks at the names of fields whose types are right (`fields_taken_by_type`).
-/

namespace ShapeCompiler

open Source Code Work Machine

/-! ## Where a member is -/

namespace IntersectionShape

/-- A member is taken out from here on: from the only run of fields that looks like it; else from
the segment of the member, or of its name if there is none, provided that it is as long. -/
inductive TakenFrom (s : IntersectionShape) (target : Info) (name : String)
    (wanted : List (Name × Info)) : Nat → Prop
  | run {start : Nat} (only : s.runs wanted = [start]) : TakenFrom s target name wanted start
  | member {segment : Segment} (several : (s.runs wanted).length ≠ 1)
    (first : s.segments.find? (·.member = target) = some segment)
    (long : segment.length = wanted.length) : TakenFrom s target name wanted segment.start
  | named {segment : Segment} (several : (s.runs wanted).length ≠ 1)
    (none : s.segments.find? (·.member = target) = none) (first : s.segment? name = some segment)
    (long : segment.length = wanted.length) : TakenFrom s target name wanted segment.start

variable {s : IntersectionShape} {target : Info} {name : String} {wanted : List (Name × Info)}
  {start : Nat}

theorem findMember_of_several (several : (s.runs wanted).length ≠ 1) :
    s.findMember target name wanted =
      (s.segments.find? (·.member = target) <|> s.segment? name).bind fun segment =>
        if segment.length = wanted.length then some segment.start else none := by
  unfold findMember
  split
  · rename_i only
    exact absurd (by rw [only]; rfl) several
  · rfl

theorem findMember_eq_some_iff :
    s.findMember target name wanted = some start ↔ s.TakenFrom target name wanted start := by
  constructor
  · intro found
    by_cases one : (s.runs wanted).length = 1
    · obtain ⟨only, isOnly⟩ := List.length_eq_one_iff.mp one
      simp only [findMember, isOnly, Option.some.injEq] at found
      exact .run (found ▸ isOnly)
    · rw [findMember_of_several one, Option.bind_eq_some_iff] at found
      obtain ⟨segment, isSegment, found⟩ := found
      split at found
      · rename_i long
        cases found
        cases first : s.segments.find? (·.member = target) with
        | some other =>
          rw [first] at isSegment
          cases isSegment
          exact .member one first long
        | none =>
          rw [first] at isSegment
          exact .named one first isSegment long
      · cases found
  · intro taken
    cases taken with
    | run only => simp [findMember, only]
    | member several first long =>
      rw [findMember_of_several several, first]
      exact if_pos long
    | named several none first long =>
      rw [findMember_of_several several, none, first]
      exact if_pos long

theorem mem_runs_iff : start ∈ s.runs wanted ↔
    0 < wanted.length ∧ start + wanted.length ≤ s.fields.length ∧
    s.runFits wanted start = true := by
  unfold runs
  split
  · rename_i fits
    simp only [Bool.and_eq_true, decide_eq_true_eq] at fits
    simp only [List.mem_filter, List.mem_range]
    constructor
    · rintro ⟨inside, isRun⟩
      exact ⟨fits.1, by omega, isRun⟩
    · rintro ⟨_, inside, isRun⟩
      exact ⟨by omega, isRun⟩
  · rename_i not
    simp only [Bool.and_eq_true, decide_eq_true_eq] at not
    simp only [List.not_mem_nil, false_iff]
    rintro ⟨some, inside, _⟩
    omega

theorem of_runs_eq (only : s.runs wanted = [start]) :
    0 < wanted.length ∧ start + wanted.length ≤ s.fields.length ∧ s.runFits wanted start = true :=
  mem_runs_iff.mp (by rw [only]; exact List.mem_singleton.mpr rfl)

/-- Fields that look like those wanted have their keys. -/
theorem runFits_iff (inside : start + wanted.length ≤ s.fields.length) :
    s.runFits wanted start = true ↔
      ∀ i f, wanted[i]? = some f → (infoAtField s.fields (start + i)).key = f.2.key := by
  have zip (i : Nat) (f g : Name × Info) : ((s.fields.drop start).zip wanted)[i]? = some (g, f) ↔
      s.fields[start + i]? = some g ∧ wanted[i]? = some f := by
    rw [List.getElem?_zip_eq_some, List.getElem?_drop]
  rw [runFits, List.all_eq_true]
  constructor
  · intro all i f isWanted
    have i_lt := (List.getElem?_eq_some_iff.mp isWanted).1
    obtain ⟨g, isField⟩ : ∃ g, s.fields[start + i]? = some g :=
      ⟨_, List.getElem?_eq_getElem (by omega)⟩
    have same := all (g, f) (List.mem_of_getElem? ((zip i f g).mpr ⟨isField, isWanted⟩))
    simpa [infoAtField, isField] using same
  · rintro keys ⟨g, f⟩ there
    obtain ⟨i, there⟩ := List.mem_iff_getElem?.mp there
    obtain ⟨isField, isWanted⟩ := (zip i f g).mp there
    simpa [infoAtField, isField] using keys i f isWanted

/-- Segments that are laid out by counting cover the members. -/
theorem covers_of_segments {p : Program} {members : List TypeId}
    {parts : List (Info × List (Name × Info))} (fields : s.fields = parts.flatMap (·.2))
    (segments : s.segments = segmentsOf p 0 members parts) (count : parts.length = members.length) :
    s.Covers p members parts where
  fields := fields
  count := by rw [segments, length_segmentsOf 0 count]
  segment k t info own here there := by rw [segments,
    getElem?_segmentsOf 0 here there, Nat.zero_add]

/-- What is wanted looks like itself. -/
theorem runFits_of_own (inside : start + wanted.length ≤ s.fields.length)
    (own : (s.fields.drop start).take wanted.length = wanted) : s.runFits wanted start = true := by
  refine (runFits_iff inside).mpr fun i f isWanted => ?_
  have lt := (List.getElem?_eq_some_iff.mp isWanted).1
  have isField : s.fields[start + i]? = some f := by
    rwa [← own, List.getElem?_take_of_lt lt, List.getElem?_drop] at isWanted
  rw [infoAtField, isField]
  rfl

/-- The fields of a segment are those of its member. -/
theorem Covers.segment_fields {p : Program} {members : List TypeId}
    {parts : List (Info × List (Name × Info))} (covers : s.Covers p members parts)
    (count : parts.length = members.length) {segment : Segment} (there : segment ∈ s.segments) :
    ∃ part ∈ parts, segment.member = part.1 ∧ segment.length = part.2.length ∧
      segment.start + part.2.length ≤ s.fields.length ∧
      (s.fields.drop segment.start).take part.2.length = part.2 := by
  obtain ⟨k, isSegment⟩ := List.mem_iff_getElem?.mp there
  have inside : k < members.length := covers.count ▸ (List.getElem?_eq_some_iff.mp isSegment).1
  have isMember := List.getElem?_eq_getElem inside
  have isPart := List.getElem?_eq_getElem (count ▸ inside)
  rw [covers.segment k _ _ _ isMember isPart, Option.some.injEq] at isSegment
  subst isSegment
  refine ⟨parts[k], List.getElem_mem _, rfl, rfl, ?_⟩
  -- the fields before those of the member, these, and those behind
  have split : s.fields = (parts.take k).flatMap (·.2) ++
      (parts[k].2 ++ (parts.drop (k + 1)).flatMap (·.2)) := by
    rw [covers.fields, ← List.flatMap_cons, ← List.flatMap_append, ← List.drop_eq_getElem_cons,
      List.take_append_drop]
  constructor
  · rw [split]
    simp only [List.length_append]
    omega
  · dsimp only [List.get_eq_getElem]
    rw [split, List.drop_left, List.take_left]

end IntersectionShape

/-- An intersection that is registered, with the fields that its members bring in. -/
structure Stage.HasIntersection (x : Stage) (p : Program) (id : ShapeId) (shape : IntersectionShape)
    (members : List TypeId) (parts : List (Info × List (Name × Info))) : Prop where
  known : x.work.registry.intersection? id = some shape
  covers : shape.Covers p members parts
  count : parts.length = members.length
  objects : ∀ t own, (Info.object t, own) ∈ parts →
    ∃ o, x.work.registry.object? t = some o ∧ o.props = own

namespace Stage.HasIntersection

variable {x : Stage} {p : Program} {id t : ShapeId} {shape : IntersectionShape}
  {members : List TypeId}
  {parts : List (Info × List (Name × Info))} {name : String} {o : ObjectShape} {start : Nat}

/-- A member has a segment. -/
theorem exists_segment (has : x.HasIntersection p id shape members parts)
    (member : (Info.object t, o.props) ∈ parts) :
    ∃ segment ∈ shape.segments, segment.member = .object t := by
  obtain ⟨k, isPart⟩ := List.mem_iff_getElem?.mp member
  have inside := (List.getElem?_eq_some_iff.mp isPart).1
  have isMember := List.getElem?_eq_getElem (has.count ▸ inside)
  exact ⟨_, List.mem_of_getElem? (has.covers.segment k _ _ _ isMember isPart), rfl⟩

theorem segment_fields (has : x.HasIntersection p id shape members parts)
    (known : x.work.registry.object? t = some o) {segment : Segment}
    (there : segment ∈ shape.segments)
    (isMember : segment.member = .object t) :
    segment.length = o.props.length ∧ segment.start + o.props.length ≤ shape.fields.length ∧
      (shape.fields.drop segment.start).take o.props.length = o.props := by
  obtain ⟨⟨info, own⟩, isPart, sameMember, long, inside, fields⟩ :=
    has.covers.segment_fields has.count there
  obtain rfl : info = .object t := sameMember.symm.trans isMember
  obtain ⟨o', known', rfl⟩ := has.objects t own isPart
  cases known.symm.trans known'
  exact ⟨long, inside, fields⟩

/-- Where a member of the intersection is found are its own fields. If only one run looks like it
then this run is its segment. -/
theorem own_fields (has : x.HasIntersection p id shape members parts)
    (known : x.work.registry.object? t = some o) (member : (Info.object t, o.props) ∈ parts)
    (taken : shape.TakenFrom (.object t) name o.props start) :
    start + o.props.length ≤ shape.fields.length ∧
      (shape.fields.drop start).take o.props.length = o.props := by
  obtain ⟨segment, there, isMember⟩ := has.exists_segment member
  cases taken with
  | run only =>
    obtain ⟨long, inside, fields⟩ := has.segment_fields known there isMember
    have isRun : segment.start ∈ shape.runs o.props := by
      exact shape.mem_runs_iff.mpr
        ⟨(shape.of_runs_eq only).1, inside, shape.runFits_of_own inside fields⟩
    obtain rfl : segment.start = start := by simpa [only] using isRun
    exact ⟨inside, fields⟩
  | @member segment _ first _ =>
    have isFirst : segment.member = .object t := by simpa using List.find?_some first
    obtain ⟨_, inside, fields⟩ := has.segment_fields known (List.mem_of_find?_eq_some first) isFirst
    exact ⟨inside, fields⟩
  | named _ none _ _ =>
    have never := List.find?_eq_none.mp none segment there
    exact absurd (decide_eq_true isMember) never

/-- A member of the intersection is found. -/
theorem taken (has : x.HasIntersection p id shape members parts)
    (known : x.work.registry.object? t = some o) (member : (Info.object t, o.props) ∈ parts)
    (name : String) : ∃ start, shape.TakenFrom (.object t) name o.props start := by
  by_cases one : (shape.runs o.props).length = 1
  · obtain ⟨only, isOnly⟩ := List.length_eq_one_iff.mp one
    exact ⟨only, .run isOnly⟩
  · obtain ⟨segment, there, isMember⟩ := has.exists_segment member
    cases first : shape.segments.find? (·.member = .object t) with
    | none => exact absurd (decide_eq_true isMember) (List.find?_eq_none.mp first segment there)
    | some segment =>
      have isFirst : segment.member = .object t := by simpa using List.find?_some first
      have long := (has.segment_fields known (List.mem_of_find?_eq_some first) isFirst).1
      exact ⟨segment.start, .member one first long⟩

end Stage.HasIntersection

/-! ## Shapes that are asked for -/

/-- What members that are objects bring in are their properties. -/
theorem Lowered.objects {s : Setup} {depth : Nat} {b : Bindings} {members : List TypeId}
    {parts : List (Info × List (Name × Info))} {w w' v : Work}
    (h : Lowered s depth b members parts w w') (moment : Moment s w) (later : Later s w' v)
    {t : ShapeId} {own : List (Name × Info)} (listed : (Info.object t, own) ∈ parts) :
    ∃ o, v.registry.object? t = some o ∧ o.props = own := by
  induction h with
  | nil => cases listed
  | cons isInfo brings further ih =>
    have moment₂ := moment.later (member_reaches isInfo brings moment).later
    rcases List.mem_cons.mp listed with isFirst | inRest
    · cases isFirst
      obtain ⟨o, w₃, isShape, done⟩ := Compile.of_bind_ok brings
      obtain ⟨rfl, known⟩ := Compile.of_objectShape_ok isShape
      cases done
      have since := (further.reaches moment₂).later.trans later
      exact ⟨o, Registry.object?_eq_some_iff.mpr
        (Registry.shape?_of_prefix since.shapes known), rfl⟩
    · exact ih moment₂ later inRest

/-- An intersection that is asked for under a new name has the fields that its members bring in. If
no record has this name, its record has a field for each of them. -/
theorem Stage.hasIntersection_of_request {s : Setup} {depth : Nat} {b : Bindings}
    {members : List TypeId} {w w' : Work} {i : Info} (moment : Moment s w)
    (ran : Compile.intersectionInfoBy (Compile.infoAt depth) b members s w = .ok i w') :
    ∃ id parts wm, i = .intersection id ∧ Lowered s depth b members parts w wm ∧
      (wm.registry.shapeByName (membersName s.program members) = none →
        ∃ shape, ∀ x : Stage, Later s w' x.work →
        x.HasIntersection s.program id shape members parts ∧
          (wm.code.types.lookupNamed (membersName s.program members) = none →
            x.work.code.types.fields? shape.record =
              some (List.replicate shape.fields.length .ptr))) := by
  obtain ⟨_, wm, segmented, ran⟩ := Compile.of_bind_ok ran
  obtain ⟨parts, lowered, rfl⟩ := Compile.segmentsBy_lowered segmented
  obtain ⟨id, w₁, asked, ran⟩ := Compile.of_bind_ok ran
  cases ran
  refine ⟨id, parts, wm, rfl, lowered, fun new => ?_⟩
  have isName : intersectionName (segmentsOf s.program 0 members parts) =
      membersName s.program members := by
    simp only [intersectionName, membersName, lowered.names]
  rw [← isName] at new ⊢
  have isRequest : Compile.shapeNamed (intersectionName (segmentsOf s.program 0 members parts))
      (List.replicate (parts.flatMap (·.2)).length .ptr) (fun record => .intersection
        ⟨intersectionName (segmentsOf s.program 0 members parts), record, parts.flatMap (·.2),
          segmentsOf s.program 0 members parts⟩) s wm = .ok id w' := asked
  obtain ⟨record, made⟩ := Compile.shapeNamed_made isRequest (fun _ => rfl) new
  refine ⟨⟨intersectionName (segmentsOf s.program 0 members parts), record, parts.flatMap (·.2),
    segmentsOf s.program 0 members parts⟩, fun x later => ?_⟩
  obtain ⟨known, laid⟩ := made x.work later
  have moment' := moment.later (lowered.reaches moment).later
  have since := (((Compile.shapeOfIntersection_walks _ _).ends moment').of_ok asked).1.later.trans
    later
  exact ⟨⟨Registry.intersection?_eq_some_iff.mpr known, lowered.covers _ record, lowered.length,
    fun t own listed => lowered.objects moment since listed⟩, laid⟩

/-! ## Properties by name -/

section Properties

variable {props : List (Name × Info)} {offset : Nat} {n : Name} {info : Info}

/-- What is found under a name is the first of this name. -/
theorem Table.findIdx?_of_find? (found : Table.find? n props = some info) :
    ∃ j, props.findIdx? (·.1 = n) = some j ∧ props[j]? = some (n, info) := by
  induction props with
  | nil => cases found
  | cons prop rest ih =>
    obtain ⟨m, i⟩ := prop
    rw [Table.find?] at found
    split at found
    · rename_i same
      cases found
      exact ⟨0, by simp [List.findIdx?_cons, same], by simp [same]⟩
    · rename_i apart
      obtain ⟨j, first, here⟩ := ih found
      exact ⟨j + 1, by simp [List.findIdx?_cons, apart, first], by simpa using here⟩

theorem Compile.mem_numbered {index : Nat} (h : (n, index, info) ∈ Compile.numbered props offset) :
    ∃ j, props[j]? = some (n, info) ∧ index = j + offset := by
  obtain ⟨⟨⟨m, i⟩, at_⟩, there, picked⟩ := List.mem_filterMap.mp h
  obtain ⟨before, isProp⟩ := List.mk_mem_zipIdx_iff_le_and_getElem?_sub.mp there
  dsimp only at picked
  split at picked
  · cases picked
  · cases picked
    exact ⟨index - offset, isProp, by omega⟩

/-- Of the fields that have names, the first of a name is found. -/
theorem Compile.find?_numbered_of_first {j : Nat} (named : n ≠ .empty)
    (first : props.findIdx? (·.1 = n) = some j) (here : props[j]? = some (n, info)) :
    (Compile.numbered props offset).find? (·.1 = n) = some (n, j + offset, info) := by
  have inside : (n, j + offset, info) ∈ Compile.numbered props offset := by
    refine List.mem_filterMap.mpr ⟨((n, info), j + offset), ?_, if_neg named⟩
    exact List.mk_mem_zipIdx_iff_le_and_getElem?_sub.mpr ⟨by omega, by simpa using here⟩
  cases found : (Compile.numbered props offset).find? (·.1 = n) with
  | none => exact absurd (by simp) (List.find?_eq_none.mp found _ inside)
  | some field =>
    obtain ⟨m, index, i⟩ := field
    have isName : m = n := by simpa using List.find?_some found
    obtain ⟨j', first', here', rfl⟩ := Compile.find?_numbered found
    cases first.symm.trans first'
    cases here.symm.trans here'
    rw [isName]

end Properties

/-! ## Values with properties -/

/-- What a value kept as a record holds under a name: the first property of this name. -/
def valueUnder (props : List (Name × Info)) (offset : Nat) (items : List Value) (n : Name) :
    Option Value := do
  let j ← props.findIdx? (·.1 = n)
  items[j + offset]?

namespace Stage

/-- The properties of a value, which are in its record from a field on. -/
inductive KeepsProps (x : Stage) : Info → List (Name × Info) → Nat → Prop
  | object {t : ShapeId} {o : ObjectShape} (known : x.work.registry.object? t = some o) :
    KeepsProps x (.object t) o.props 0
  | ofClass {cls : DeclId} {layout : ClassLayout} (laid : x.work.layouts.get? cls = some layout) :
    KeepsProps x (.instanceOf cls) layout.fields layout.offset

/-- An object or an instance in memory whose properties have been written. -/
structure IsObject (x : Stage) (v : Operand) (props : List (Name × Info)) (offset : Nat)
    (items : List Value) : Prop where
  isBoxed : v.form = .boxed
  kept : x.KeepsProps v.info props offset
  cell : ∃ k, x.Knows v.value (address k) ∧ x.memory.heap[k]? = some (.agg items)
  written : ∀ j < props.length, ∃ q, q ≠ .undef ∧ items[j + offset]? = some q

/-- A property that was read from a record. -/
def IsRead (x : Stage) (items : List Value) (field : Name × Nat × Info) (read : Name × Operand) :
    Prop :=
  read.1 = field.1 ∧ read.2.form = .boxed ∧ read.2.info = field.2.2 ∧
    ∃ q, items[field.2.1]? = some q ∧ x.Knows read.2.value q

/-- What goes into a field: the property of its name. -/
def Fits (x : Stage) (props : List (Name × Info)) (offset : Nat) (items : List Value)
    (field : Name × Info) (v : Operand) : Prop :=
  v.form = .boxed ∧ v.info = field.2 ∧
    ∃ q, valueUnder props offset items field.1 = some q ∧ x.Knows v.value q

variable {x : Stage}

theorem IsRead.later {s : Setup} {x' : Stage} {items : List Value} {field : Name × Nat × Info}
    {read : Name × Operand} (h : x.IsRead items field read) (goes : x.Goes s x') :
    x'.IsRead items field read := by
  obtain ⟨isName, isBoxed, isInfo, q, item, isValue⟩ := h
  exact ⟨isName, isBoxed, isInfo, q, item, goes.knows isValue⟩

theorem IsObject.ne_undef {v : Operand} {props : List (Name × Info)} {offset : Nat}
    {items : List Value}
    (h : x.IsObject v props offset items) {n : Name} {q : Value}
    (under : valueUnder props offset items n = some q) : q ≠ .undef := by
  obtain ⟨j, first, item⟩ := Option.bind_eq_some_iff.mp under
  obtain ⟨inside, _⟩ := List.findIdx?_eq_some_iff_getElem.mp first
  obtain ⟨q', written, item'⟩ := h.written j inside
  cases item.symm.trans item'
  exact written

end Stage

/-! ## Steps -/

namespace Compile

variable {s : Setup} {w : Work} {id : ShapeId}

theorem objectShape_known {o : ObjectShape} (known : w.registry.object? id = some o) :
    objectShape id s w = .ok o w := by
  rw [objectShape, registry_bind_apply, known]
  rfl

theorem intersectionShape_known {shape : IntersectionShape}
    (known : w.registry.intersection? id = some shape) :
    intersectionShape id s w = .ok shape w := by
  rw [intersectionShape, registry_bind_apply, known]
  rfl

theorem memberFields_object {o : ObjectShape} (known : w.registry.object? id = some o) :
    memberFields (.object id) s w = .ok o.props w := by
  rw [memberFields, memberFieldsBy, bind_apply, objectShape_known known]
  rfl

end Compile

namespace Emit

variable {s : Setup} {x : Stage} {α β : Type}

/-- A part that finds something and changes nothing, and the rest. -/
theorem Achieves.read {c : Compile α} {k : α → Emit β} {a : α} {Q : β → Stage → Prop}
    (known : c s x.work = .ok a x.work) (rest : Achieves s x (k a) Q) :
    Achieves s x (liftM c >>= k) Q := by
  refine .of_eq ?_ rest
  rw [lift_bind_apply, Compile.bind_apply, known]

/-- Steps for the members of a list, with an invariant of the members dealt with and what was
given. -/
theorem Achieves.mapM {k : α → Emit β} (I : List α → List β → Stage → Prop) (as : List α)
    (start : I [] [] x)
    (step : ∀ done a rest given, as = done ++ a :: rest → ∀ x', x.Goes s x' → I done given x' →
      Achieves s x' (k a) fun b => I (done ++ [a]) (given ++ [b])) :
    Achieves s x (as.mapM k) fun given => I as given := by
  suffices general : ∀ rest done given, as = done ++ rest → ∀ x', x.Goes s x' → I done given x' →
      Achieves s x' (rest.mapM k) fun more => I as (given ++ more) from
    general as [] [] rfl x (.refl x) start
  intro rest
  induction rest with
  | nil =>
    intro done given parts x' _ here
    rw [List.append_nil] at parts
    subst parts
    exact .pure (by simpa using here)
  | cons a rest ih =>
    intro done given parts x' goes here
    rw [List.mapM_cons]
    refine .bind (step done a rest given parts x' goes here) fun b x'' goes' here' => ?_
    have later := ih (done ++ [a]) (given ++ [b]) (by simp [parts]) x'' (goes.trans goes') here'
    refine .bind later fun more x₃ goes₃ here₃ => .pure ?_
    simpa using here₃

theorem storeField_achieves {ptr value : ValueId} {k i : Nat} {items : List Value} {v : Value}
    (record : TyId) (isPtr : x.Knows ptr (address k)) (cell : x.memory.heap[k]? = some (.agg items))
    (inside : i < items.length) (isValue : x.Knows value v) :
    Achieves s x (storeField record ptr i value) fun _ x' =>
      x'.memory = x.memory.put k (.agg (items.set i v)) ∧ x'.work = x.work := by
  refine ((storeField_does record isPtr.value cell inside).achieves (.storeField _ _ _ _)).mono ?_
  rintro _ x' _ ⟨work, v', memory, isStored⟩
  obtain rfl : v' = v := (isStored isValue.inside).trans isValue.value
  exact ⟨memory, work⟩

/-- What has the key of its new form already is the same pointer in it. -/
theorem coerced_same (depth : Nat) {v : Operand} {m : Info} (isBoxed : v.form = .boxed)
    (same : v.info.key = m.key) : (Lowering.ofDepth (depth + 1)).coerced v m = pure v.value := by
  obtain ⟨value, info, form⟩ := v
  cases isBoxed
  obtain ⟨info', _, isSame⟩ := coerce_same (l := .ofDepth depth) same
  have coerced : (Lowering.ofDepth (depth + 1)).coerce ⟨value, info, .boxed⟩ m =
      pure (.boxed value info') := isSame value
  rw [Lowering.coerced, coerced, pure_bind]
  rfl

/-! ## A new record, field by field -/

section Fields

variable {x₀ x' : Stage} {ptr : ValueId} {n : Nat} {vals : List Value} {record : Value}

theorem Making.since (h : Making x ptr record x') (work : x.work = x₀.work)
    (keeps : x₀.memory.Keeps [] x.memory) : Making x₀ ptr record x' := by
  obtain ⟨k, new, isPtr, cell⟩ := h.made
  exact ⟨h.work.trans work, keeps.trans h.keeps, k, Nat.le_trans keeps.size new, isPtr, cell⟩

theorem Making.later (h : Making x₀ ptr record x) (goes : x.Goes s x') (work : x'.work = x.work)
    (memory : x'.memory = x.memory) : Making x₀ ptr record x' := by
  obtain ⟨k, new, isPtr, cell⟩ := h.made
  exact ⟨work.trans h.work, memory ▸ h.keeps, k, new, goes.knows isPtr, memory ▸ cell⟩

/-- The fields that are filled, and null pointers behind them. -/
def partlyFilled (n : Nat) (vals : List Value) : List Value :=
  vals ++ List.replicate (n - vals.length) .null

theorem partlyFilled_full (all : vals.length = n) : partlyFilled n vals = vals := by
  simp [partlyFilled, all]

theorem set_partlyFilled (room : vals.length < n) (v : Value) :
    (partlyFilled n vals).set vals.length v = partlyFilled n (vals ++ [v]) := by
  obtain ⟨m, isRest⟩ : ∃ m, n - vals.length = m + 1 := ⟨n - vals.length - 1, by omega⟩
  have rest : n - (vals.length + 1) = m := by omega
  simp [partlyFilled, isRest, rest, List.replicate_succ]

theorem newRecord_achieves {ty : TyId} (name : String) (moment : Moment s x.work)
    (laid : x.work.code.types.fields? ty = some (List.replicate n .ptr)) :
    Achieves s x (liftM (Draft.alloc ty name)) fun ptr x' =>
      Making x ptr (.agg (partlyFilled n [])) x' := by
  have isZero (types : TypeTable) (admitted : x.Admits types) :
      zeroValue types ty = .agg (List.replicate n .null) :=
    zeroValue_record (moment.get_ptr admitted) (TypeTable.fields?_of_grows admitted laid)
  refine (alloc_achieves name isZero).mono ?_
  rintro ptr x' _ ⟨isPtr, memory, work, _⟩
  refine ⟨work, memory ▸ Memory.keeps_push _ _, _, Nat.le_refl _, isPtr, ?_⟩
  rw [memory]
  exact Memory.heap_push _ _

/-- The next field is filled. -/
theorem Making.next (h : Making x₀ ptr (.agg (partlyFilled n vals)) x) (ty : TyId)
    (room : vals.length < n) {value : ValueId} {v : Value} (isValue : x.Knows value v) :
    Achieves s x (storeField ty ptr vals.length value) fun _ x' =>
      Making x₀ ptr (.agg (partlyFilled n (vals ++ [v]))) x' := by
  obtain ⟨k, new, isPtr, cell⟩ := h.made
  have inside : vals.length < (partlyFilled n vals).length := by
    simp only [partlyFilled, List.length_append, List.length_replicate]
    omega
  refine (storeField_achieves ty isPtr cell inside isValue).mono ?_
  rintro _ x' goes ⟨memory, work⟩
  have kept : x₀.memory.Keeps [k] x'.memory := by
    rw [memory]
    exact (h.keeps.weaken (by simp)).trans (Memory.keeps_put _ _ _)
  refine ⟨work.trans h.work, kept.of_new (by simpa using new), k, new, goes.knows isPtr, ?_⟩
  rw [memory, set_partlyFilled room]
  exact Memory.heap_put (Memory.lt_of_heap cell) _

/-- Each step fills the field of its position, one after the other. -/
theorem fill_achieves {as : List α} {step : α × Nat → Emit PUnit} (same : vals.length = as.length)
    (new : Making x₀ ptr (.agg (partlyFilled as.length [])) x)
    (each : ∀ i a v, as[i]? = some a → vals[i]? = some v → ∀ x', x.Goes s x' →
      Making x₀ ptr (.agg (partlyFilled as.length (vals.take i))) x' →
      Achieves s x' (step (a, i)) fun _ x'' =>
        Making x₀ ptr (.agg (partlyFilled as.length (vals.take i ++ [v]))) x'') :
    Achieves s x (as.zipIdx.forM step) fun _ x' => Making x₀ ptr (.agg vals) x' := by
  have fills := Achieves.forM (s := s) (x := x) (k := step)
    (fun done x' => Making x₀ ptr (.agg (partlyFilled as.length (vals.take done.length))) x')
    as.zipIdx new ?_
  · refine fills.mono fun _ x' _ made => ?_
    rwa [List.length_zipIdx, ← same, List.take_length, partlyFilled_full rfl] at made
  · rintro done ⟨a, i⟩ rest parts x' goes made
    obtain ⟨isHere, rfl⟩ := of_zipIdx_append parts
    have inside : done.length < vals.length := same ▸ (List.getElem?_eq_some_iff.mp isHere).1
    have next := each _ _ _ isHere (List.getElem?_eq_getElem inside) x' goes made
    rw [← List.take_succ_eq_append_getElem inside] at next
    simpa using next

end Fields

/-! ## Into an intersection -/

section Into

variable {x' : Stage} {props : List (Name × Info)} {offset : Nat} {items : List Value} {n : Name}
  {info : Info} {v : Operand}

theorem find?_read {fields : List (Name × Nat × Info)} {source : List (Name × Operand)}
    (reads : List.Forall₂ (x.IsRead items) fields source) {field : Name × Nat × Info}
    (found : fields.find? (·.1 = n) = some field) :
    ∃ value, Table.find? n source = some value ∧ x.IsRead items field (n, value) := by
  induction reads with
  | nil => cases found
  | @cons field' read fields source isRead _ ih =>
    obtain ⟨m, value⟩ := read
    obtain rfl : m = field'.1 := isRead.1
    by_cases same : field'.1 = n
    · subst same
      simp only [List.find?_cons, decide_true, Option.some.injEq] at found
      subst found
      exact ⟨value, by simp [Table.find?], isRead⟩
    · simp only [List.find?_cons, same, decide_false] at found
      simpa [Table.find?, same] using ih found

theorem keepsProps_found (kept : x.KeepsProps info props offset) : ∃ record,
    Compile.namedFields info s x.work = .ok (some (Compile.numbered props offset)) x.work ∧
      Compile.recordOf info s x.work = .ok (some record) x.work := by
  cases kept with
  | @object t o known =>
    refine ⟨o.record, ?_, ?_⟩
    · rw [Compile.namedFields, Compile.bind_apply, Compile.objectShape_known known]
      rfl
    · rw [Compile.recordOf, Compile.registry_bind_apply, Registry.object?_eq_some_iff.mp known]
      rfl
  | @ofClass cls layout laid =>
    refine ⟨layout.record, ?_, ?_⟩
    · rw [Compile.namedFields, Compile.bind_apply, Compile.layoutOf_known laid]
      rfl
    · rw [Compile.recordOf, Compile.bind_apply, Compile.layoutOf_known laid]
      rfl

theorem loadRef_achieves {ptr : ValueId} {k : Nat} {q : Value} (field : FieldRef) (n : Name)
    (isPtr : x.Knows ptr (address k)) (cell : x.memory.heap[k]? = some (.agg items))
    (item : items[field.index]? = some q) (written : q ≠ .undef) :
    Achieves s x (loadRef ptr field n) fun read x' => ∃ value, read = .boxed value field.info ∧
      x'.Knows value q ∧ x'.memory = x.memory ∧ x'.work = x.work := by
  refine .read rfl (.bind (loadField_achieves field.record _ isPtr cell item written) ?_)
  rintro value x' _ loaded
  exact .pure ⟨value, rfl, loaded⟩

/-- All named properties are read. -/
theorem fieldValues_achieves (isObject : x.IsObject v props offset items) :
    Achieves s x (fieldValues v) fun found x' => ∃ source, found = some source ∧
      x'.memory = x.memory ∧ x'.work = x.work ∧
      List.Forall₂ (x'.IsRead items) (Compile.numbered props offset) source := by
  obtain ⟨record, fields, isRecord⟩ := keepsProps_found (s := s) isObject.kept
  obtain ⟨k, isPtr, cell⟩ := isObject.cell
  refine .read fields (.read isRecord ?_)
  dsimp only
  rw [boxed_of_boxed isObject.isBoxed, pure_bind]
  refine .bind (.mapM (fun done given x' => x'.memory = x.memory ∧ x'.work = x.work ∧
    List.Forall₂ (x'.IsRead items) done given) _ ⟨rfl, rfl, .nil⟩ ?_) ?_
  · rintro done ⟨n, index, info⟩ rest given parts x' goes ⟨memory, work, reads⟩
    have listed : (n, index, info) ∈ Compile.numbered props offset := by simp [parts]
    obtain ⟨j, isProp, rfl⟩ := Compile.mem_numbered listed
    obtain ⟨q, written, item⟩ := isObject.written j (List.getElem?_eq_some_iff.mp isProp).1
    refine .bind (loadRef_achieves ⟨record, j + offset, info⟩ n (goes.knows isPtr)
      (memory ▸ cell) item
      written) ?_
    rintro _ x'' goes' ⟨value, rfl, isValue, memory', work'⟩
    refine .pure ⟨memory'.trans memory, work'.trans work, ?_⟩
    exact List.rel_append (reads.imp fun _ _ isRead => isRead.later goes')
      (.cons ⟨rfl, rfl, rfl, q, item, isValue⟩ .nil)
  · rintro source x' _ ⟨memory, work, reads⟩
    exact .pure ⟨source, rfl, memory, work, reads⟩

/-- If there is a property for every field, each field gets its own. -/
theorem arrange_achieves {shape : IntersectionShape} {source : List (Name × Operand)}
    (named : ∀ f ∈ shape.fields, f.1 ≠ .empty)
    (offers : ∀ f ∈ shape.fields, Table.find? f.1 props = some f.2)
    (reads : List.Forall₂ (x.IsRead items) (Compile.numbered props offset) source) :
    ∃ values, shape.arrange source = some values ∧
      List.Forall₂ (x.Fits props offset items) shape.fields values := by
  suffices general : ∀ fields ⊆ shape.fields, ∃ values : List Operand,
      (fields.mapM fun f => if f.1 = .empty then none else Table.find? f.1 source) = some values ∧
        List.Forall₂ (x.Fits props offset items) fields values by
    obtain ⟨values, found, fit⟩ := general shape.fields (List.Subset.refl _)
    refine ⟨values, ?_, fit⟩
    rw [IntersectionShape.arrange, found]
  intro fields inside
  induction fields with
  | nil => exact ⟨[], rfl, .nil⟩
  | cons field rest ih =>
    have here := inside List.mem_cons_self
    obtain ⟨values, found, fit⟩ := ih fun f isField => inside (List.mem_cons_of_mem _ isField)
    obtain ⟨j, first, isProp⟩ := Table.findIdx?_of_find? (offers field here)
    obtain ⟨value, isFirst, _, isBoxed, isInfo, q, item, isValue⟩ :=
      find?_read reads (Compile.find?_numbered_of_first (named field here) first isProp)
    refine ⟨value :: values, ?_, .cons ⟨isBoxed, isInfo, q, ?_, isValue⟩ fit⟩
    · simp [named field here, isFirst, found]
    · simpa [valueUnder, first] using item

/-- The pointers that go into the fields. -/
theorem exists_values {fields : List (Name × Info)} {values : List Operand}
    (fit : List.Forall₂ (x.Fits props offset items) fields values) : ∃ vals,
      List.Forall₂ (fun f q => valueUnder props offset items f.1 = some q) fields vals ∧
        List.Forall₂ (fun (pair : Operand × Name × Info) q =>
          pair.1.form = .boxed ∧ pair.1.info = pair.2.2 ∧ x.Knows pair.1.value q)
          (values.zip fields) vals := by
  induction fit with
  | nil => exact ⟨[], .nil, .nil⟩
  | cons here _ ih =>
    obtain ⟨vals, under, known⟩ := ih
    obtain ⟨isBoxed, isInfo, q, isUnder, isValue⟩ := here
    exact ⟨q :: vals, .cons isUnder under, .cons ⟨isBoxed, isInfo, isValue⟩ known⟩

theorem fillFields_map (l : Lowering) (record : TyId) (ptr : ValueId) (as : List α)
    (entry : α → Nat × Operand × Info) : fillFields l record ptr (as.map entry) =
    as.forM (fun a => do
      storeField record ptr (entry a).1 (← l.coerced (entry a).2.1 (entry a).2.2)) := by
  induction as with
  | nil => rfl
  | cons a rest ih =>
    rw [List.map_cons, fillFields, ih]
    simp

/-- What has properties goes into an intersection by them. -/
theorem intersectionInit_eq {l : Lowering} {id : ShapeId} {shape : IntersectionShape}
    (known : x.work.registry.intersection? id = some shape)
    (kept : x.KeepsProps v.info props offset) :
    intersectionInit l v id x.frame s x.work = (do
      match ← fieldValues v with
      | some source => initFromFields l v shape id source
      | none => initSingle l v shape id : Emit Operand) x.frame s x.work := by
  obtain ⟨value, info, form⟩ := v
  rw [intersectionInit, lift_bind_apply, Compile.bind_apply, Compile.intersectionShape_known known]
  cases kept <;> rfl

/-- Values that fit are stored, each into the field of its position. -/
theorem initFromFields_achieves (depth : Nat) (moment : Moment s x.work) {id : ShapeId}
    {shape : IntersectionShape} {source : List (Name × Operand)} {values : List Operand}
    (laid : x.work.code.types.fields? shape.record = some (List.replicate shape.fields.length .ptr))
    (arranged : shape.arrange source = some values)
    (fit : List.Forall₂ (x.Fits props offset items) shape.fields values) :
    Achieves s x (initFromFields (.ofDepth (depth + 1)) v shape id source)
    fun inside x' => ∃ r vals,
      inside = .boxed r (.intersection id) ∧ Making x r (.agg vals) x' ∧
        List.Forall₂ (fun f q => valueUnder props offset items f.1 = some q) shape.fields vals := by
  obtain ⟨vals, under, known⟩ := exists_values fit
  have length : shape.fields.length = (values.zip shape.fields).length :=
    under.length_eq.trans known.length_eq.symm
  rw [initFromFields, arranged]
  dsimp only
  refine .bind (newRecord_achieves "intersection" moment laid) fun r x₁ goes₁ made => ?_
  rw [fillFields_map]
  refine .bind (fill_achieves known.length_eq.symm (length ▸ made) ?_) fun _ x' _ made' =>
    .pure ⟨r, vals, rfl, made', under⟩
  rintro i ⟨value, f⟩ q isPair isValue x₂ goes₂ made₂
  obtain ⟨inside, isPair⟩ := List.getElem?_eq_some_iff.mp isPair
  obtain ⟨inside', isValue⟩ := List.getElem?_eq_some_iff.mp isValue
  have here := known.get inside inside'
  rw [List.get_eq_getElem, List.get_eq_getElem, isPair, isValue] at here
  obtain ⟨isBoxed, isInfo, isKnown⟩ := here
  rw [coerced_same depth isBoxed (congrArg Info.key isInfo), pure_bind]
  have isNext : (vals.take i).length = i := List.length_take_of_le (by omega)
  have next := made₂.next (s := s) shape.record (isNext.trans_lt inside)
    (goes₂.knows (goes₁.knows isKnown))
  rwa [isNext] at next

/-- An intersection is a new record of the properties that have the names of its fields. -/
theorem intersectionInit_achieves (depth : Nat) (moment : Moment s x.work) {id : ShapeId}
    {shape : IntersectionShape} (known : x.work.registry.intersection? id = some shape)
    (laid : x.work.code.types.fields? shape.record = some (List.replicate shape.fields.length .ptr))
    (named : ∀ f ∈ shape.fields, f.1 ≠ .empty) (isObject : x.IsObject v props offset items)
    (offers : ∀ f ∈ shape.fields, Table.find? f.1 props = some f.2) :
    Achieves s x (intersectionInit (.ofDepth (depth + 1)) v id) fun inside x' => ∃ r vals,
      inside = .boxed r (.intersection id) ∧ Making x r (.agg vals) x' ∧
        List.Forall₂ (fun f q => valueUnder props offset items f.1 = some q) shape.fields vals := by
  refine .of_eq (intersectionInit_eq known isObject.kept) (.bind (fieldValues_achieves isObject) ?_)
  rintro _ x₁ goes₁ ⟨source, rfl, memory, work, reads⟩
  obtain ⟨values, arranged, fit⟩ := arrange_achieves named offers reads
  refine (initFromFields_achieves depth (work ▸ moment) (work ▸ laid) arranged fit).mono ?_
  rintro inside x' _ ⟨r, vals, rfl, made, under⟩
  exact ⟨r, vals, rfl, made.since work (memory ▸ .refl _ _), under⟩

end Into

/-! ## Out of an intersection -/

section OutOf

variable {l : Lowering} {v : Operand} {id t : ShapeId} {shape : IntersectionShape} {o : ObjectShape}
  {start : Nat}

/-- An object that is taken out is found among the fields. -/
theorem findMember_of_ran {f : Frame} {w w' : Work} {result : Operand × Frame}
    (known : w.registry.intersection? id = some shape) (isObject : w.registry.object? t = some o)
    (ran : intersectionExtract l v id (.object t) f s w = .ok result w') : ∃ start,
      shape.findMember (.object t) ((Info.object t).describe s.program w.registry) o.props =
      some start := by
  rw [intersectionExtract, lift_bind_apply, Compile.bind_apply,
    Compile.intersectionShape_known known]
    at ran
  dsimp only at ran
  rw [if_neg (by simp), lift_bind_apply, Compile.bind_apply,
    Compile.memberFields_object isObject] at ran
  dsimp only at ran
  rw [lift_bind_apply, Compile.bind_apply] at ran
  cases found : shape.findMember (.object t) ((Info.object t).describe s.program w.registry)
    o.props with
  | some start => exact ⟨start, rfl⟩
  | none =>
    have isName : Compile.infoName (.object t) s w =
        .ok ((Info.object t).describe s.program w.registry) w := rfl
    simp only [isName, found] at ran
    cases ran

/-- Fields that have the keys of the properties are taken out as they are, one after the other. -/
theorem intersectionExtract_achieves (depth : Nat) {ptr : ValueId} {k : Nat} {items : List Value}
    (moment : Moment s x.work) (known : x.work.registry.intersection? id = some shape)
    (hasObject : x.work.registry.object? t = some o) (named : o.props.map (·.1) ≠ [.empty])
    (found : shape.findMember (.object t) ((Info.object t).describe s.program x.work.registry)
    o.props =
      some start)
    (inside : start + o.props.length ≤ shape.fields.length)
    (fits : shape.runFits o.props start = true)
    (isPtr : x.Knows ptr (address k)) (cell : x.memory.heap[k]? = some (.agg items))
    (all : items.length = shape.fields.length) (written : ∀ q ∈ items, q ≠ .undef) :
    Achieves s x (intersectionExtract (.ofDepth (depth + 1))
    (.boxed ptr (.intersection id)) id (.object t))
      fun back x' => ∃ r, back = .boxed r (.object t) ∧
        Making x r (.agg ((items.drop start).take o.props.length)) x' := by
  have isName : Compile.infoName (.object t) s x.work =
      .ok ((Info.object t).describe s.program x.work.registry) x.work := rfl
  refine .read (Compile.intersectionShape_known known) ?_
  rw [if_neg (by simp)]
  refine .read (Compile.memberFields_object hasObject) (.read isName ?_)
  rw [found]
  dsimp only
  rw [boxed_of_boxed rfl, pure_bind, if_neg named]
  have isRecord : memberRecord shape (Operand.boxed ptr (.intersection id)).info (.object t) =
      (do return (← Compile.objectShape t).record : Emit TyId) := rfl
  rw [isRecord, bind_assoc]
  refine .read (Compile.objectShape_known hasObject) ?_
  rw [pure_bind]
  refine .bind (newRecord_achieves "member" moment (moment.object_laid hasObject))
    fun r x₁ goes₁ made => ?_
  have length : ((items.drop start).take o.props.length).length = o.props.length := by
    rw [List.length_take_of_le]
    rw [List.length_drop]
    omega
  refine .bind (fill_achieves length made ?_) fun _ x' _ made' => .pure ⟨r, rfl, made'⟩
  rintro i ⟨n, info⟩ q isProp isValue x₂ goes₂ made₂
  have lt := (List.getElem?_eq_some_iff.mp isProp).1
  have item : items[start + i]? = some q := by
    rwa [List.getElem?_take_of_lt lt, List.getElem?_drop] at isValue
  have same := (shape.runFits_iff inside).mp fits i (n, info) isProp
  refine .read rfl (.bind (loadField_achieves shape.record _ (goes₂.knows (goes₁.knows isPtr))
    (made₂.keeps.heap _ _ (by simp) cell) item (written q (List.mem_of_getElem? item))) ?_)
  rintro value x₃ goes₃ ⟨isValue, memory₃, work₃⟩
  rw [coerced_same depth rfl same, pure_bind]
  have made₃ := made₂.later goes₃ work₃ memory₃
  have isNext : (((items.drop start).take o.props.length).take i).length = i :=
    List.length_take_of_le (by omega)
  have next := made₃.next (s := s) o.record (isNext.trans_lt lt) isValue
  rwa [isNext] at next

end OutOf

end Emit

/-! ## There and back -/

/-- A value that has a property for every field of an intersection: it goes into the intersection,
and each member that is an object comes out as a new record of what the value has under its names.
The intersections that are asked for are such (`Stage.hasIntersection_of_request`). -/
theorem intersection_roundTrip (p : Program) (r : Resolver) (c : Config) (depth : Nat) {x : Stage}
    {id t : ShapeId} {shape : IntersectionShape} {members : List TypeId}
    {parts : List (Info × List (Name × Info))} {o : ObjectShape} {v : Operand}
    {props : List (Name × Info)} {offset : Nat} {items : List Value}
    (moment : Moment (.of p r c) x.work)
    (has : x.HasIntersection p id shape members parts)
    (laid : x.work.code.types.fields? shape.record = some (List.replicate shape.fields.length .ptr))
    (named : ∀ f ∈ shape.fields, f.1 ≠ .empty) (hasObject : x.work.registry.object? t = some o)
    (member : (Info.object t, o.props) ∈ parts) (isObject : x.IsObject v props offset items)
    (offers : ∀ f ∈ shape.fields, Table.find? f.1 props = some f.2) :
    Emit.Achieves (.of p r c) x (do
      let inside ← Emit.intersectionInit (.ofDepth (depth + 1)) v id
      Emit.intersectionExtract (.ofDepth (depth + 1)) inside id (.object t)) fun back x' =>
        ∃ ptr taken, back = .boxed ptr (.object t) ∧ Emit.Making x ptr (.agg taken) x' ∧
          List.Forall₂ (fun f q => valueUnder props offset items f.1 = some q) o.props taken := by
  refine .bind (Emit.intersectionInit_achieves depth moment has.known laid named isObject offers) ?_
  rintro _ x₁ goes₁ ⟨inside, vals, rfl, made, under⟩
  obtain ⟨k, _, isInside, cell⟩ := made.made
  have moment₁ : Moment (.of p r c) x₁.work := made.work ▸ moment
  have hasObject₁ : x₁.work.registry.object? t = some o := made.work ▸ hasObject
  -- the fields that are taken out are those of the member
  obtain ⟨start, taken⟩ := has.taken hasObject member
    ((Info.object t).describe p x₁.work.registry)
  obtain ⟨within, own⟩ := has.own_fields hasObject member taken
  have notScalar : o.props.map (·.1) ≠ [.empty] := by
    intro only
    have isEmpty : Name.empty ∈ o.props.map (·.1) := by simp [only]
    obtain ⟨f, isProp, noName⟩ := List.mem_map.mp isEmpty
    rw [← own] at isProp
    exact named f (List.mem_of_mem_drop (List.mem_of_mem_take isProp)) noName
  have written : ∀ q ∈ vals, q ≠ .undef := by
    intro q isValue
    obtain ⟨i, lt, rfl⟩ := List.mem_iff_getElem.mp isValue
    exact isObject.ne_undef (under.get (under.length_eq ▸ lt) lt)
  refine (Emit.intersectionExtract_achieves depth moment₁ (made.work ▸ has.known)
    hasObject₁ notScalar
    (IntersectionShape.findMember_eq_some_iff.mpr taken) within
      (shape.runFits_of_own within own) isInside
    cell under.length_eq.symm written).mono ?_
  rintro _ x' _ ⟨ptr, rfl, made'⟩
  refine ⟨ptr, _, rfl, made'.since made.work made.keeps, ?_⟩
  have range := List.forall₂_take o.props.length (List.forall₂_drop start under)
  rwa [own] at range

/-- A value of two properties goes to an intersection of two objects, and from there to an object
with the properties the other way round. -/
@[irreducible] def reordered : Program := (Id.run <| StateT.run (do
  let both ← Construction.intersectionType
    [← Construction.objectType [("a", .boolean)], ← Construction.objectType [("b", .boolean)]]
  let other ← Construction.objectType [("b", .boolean), ("a", .boolean)]
  let flags ← Construction.object
    [("a", ← Construction.expr (.bool true)), ("b", ← Construction.expr (.bool false))]
  let (i, _) ← Construction.bind "i" (some both) (some flags)
  let (t, _) ← Construction.bind "t" (some other) (some (← Construction.ident "i"))
  Construction.pushEntry i
  Construction.pushEntry t : Building Unit) {}).2.program

/-- The state once the program is compiled. -/
def reorderedWork : Work :=
  Compile.endOf (Compile.entry (.ofDepth 20)) (.of reordered .ambient {}) .start

/-- The members of the intersection. -/
def reorderedParts : List (Info × List (Name × Info)) :=
  [(.object ⟨0⟩, [(⟨1⟩, .boolean)]), (.object ⟨1⟩, [(⟨2⟩, .boolean)])]

/-- A record of the addresses of two truth values. -/
def flagsAtZero : Memory := { heap := #[.agg [address 1, address 2], .bool true, .bool false] }

theorem reordered_object (id : ShapeId) (props : List (Name × Info))
    (made : (reorderedWork.registry.object? id).map (fun o => decide (o.props = props)) = some true)
    :
    ∃ o, reorderedWork.registry.object? id = some o ∧ o.props = props := by
  obtain ⟨o, known, isMade⟩ := Option.map_eq_some_iff.mp made
  exact ⟨o, known, of_decide_eq_true isMade⟩

theorem reordered_intersection : ∃ shape,
    (givenAddress reorderedWork 0 flagsAtZero).HasIntersection reordered ⟨2⟩ shape [⟨7⟩, ⟨8⟩]
      reorderedParts ∧
    shape.fields = [(⟨1⟩, .boolean), (⟨2⟩, .boolean)] ∧
    reorderedWork.code.types.fields? shape.record = some (List.replicate 2 .ptr) := by
  have made : (reorderedWork.registry.intersection? ⟨2⟩).map (fun shape => decide
      (shape.fields = [(⟨1⟩, .boolean), (⟨2⟩, .boolean)] ∧
      shape.segments = segmentsOf reordered 0 [⟨7⟩, ⟨8⟩] reorderedParts ∧
      reorderedWork.code.types.fields? shape.record = some (List.replicate 2 .ptr))) =
          some true := by
    decide +kernel
  obtain ⟨shape, known, isMade⟩ := Option.map_eq_some_iff.mp made
  obtain ⟨fields, segments, laid⟩ := of_decide_eq_true isMade
  obtain ⟨first, hasFirst, firstProps⟩ := reordered_object ⟨0⟩ [(⟨1⟩, .boolean)] (by decide +kernel)
  obtain ⟨second, hasSecond, secondProps⟩ := reordered_object ⟨1⟩ [(⟨2⟩, .boolean)]
    (by decide +kernel)
  refine ⟨shape, ⟨known, shape.covers_of_segments fields segments rfl, rfl, fun t own isPart => ?_⟩,
    fields, laid⟩
  rcases List.mem_cons.mp isPart with isFirst | isSecond
  · cases isFirst
    exact ⟨first, hasFirst, firstProps⟩
  · cases List.mem_singleton.mp isSecond
    exact ⟨second, hasSecond, secondProps⟩

/-- The second member comes out with the second value. -/
theorem intersection_roundTrip_reordered :
    Emit.Achieves (.of reordered .ambient {}) (givenAddress reorderedWork 0 flagsAtZero) (do
      let inside ← Emit.intersectionInit (.ofDepth 20) (.boxed ⟨0⟩ (.object ⟨3⟩)) ⟨2⟩
      Emit.intersectionExtract (.ofDepth 20) inside ⟨2⟩ (.object ⟨1⟩)) fun back x' =>
        ∃ ptr k, back = .boxed ptr (.object ⟨1⟩) ∧ x'.Knows ptr (address k) ∧
          x'.memory.heap[k]? = some (.agg [address 2]) := by
  obtain ⟨shape, has, fields, laid⟩ := reordered_intersection
  obtain ⟨o, hasObject, isProps⟩ := reordered_object ⟨1⟩ [(⟨2⟩, .boolean)] (by decide +kernel)
  obtain ⟨v, hasValue, valueProps⟩ := reordered_object ⟨3⟩ [(⟨1⟩, .boolean), (⟨2⟩, .boolean)]
    (by decide +kernel)
  have isObject : (givenAddress reorderedWork 0 flagsAtZero).IsObject (.boxed ⟨0⟩ (.object ⟨3⟩))
      [(⟨1⟩, .boolean), (⟨2⟩, .boolean)] 0 [address 1, address 2] := by
    refine ⟨rfl, valueProps ▸ .object hasValue, ⟨0, ⟨Nat.zero_lt_one, rfl⟩, rfl⟩,
      fun j inside => ?_⟩
    obtain rfl | rfl : j = 0 ∨ j = 1 := by simp at inside; omega
    · exact ⟨address 1, by simp, rfl⟩
    · exact ⟨address 2, by simp, rfl⟩
  refine (intersection_roundTrip reordered .ambient {} 19
    (compile_moment 20 reordered .ambient {}) has
    (by rw [fields]; exact laid) (by rw [fields]; decide) hasObject
      (by rw [isProps]; simp [reorderedParts])
    isObject (by rw [fields]; decide)).mono ?_
  rintro _ x' _ ⟨ptr, taken, rfl, made, under⟩
  obtain ⟨k, _, isPtr, cell⟩ := made.made
  rw [isProps] at under
  cases under with
  | cons isFirst none =>
    cases none
    cases isFirst
    exact ⟨ptr, k, rfl, isPtr, cell⟩

/-- A method `intersection` of a class `K`, and an intersection of two interfaces `env` and `K`. The
method is compiled first. -/
@[irreducible] def namesakes : Program := (Id.run <| StateT.run (do
  let cls ← Construction.classDecl "K" none .none
  discard <| Construction.method cls "intersection" [] (some .void) [] .none
  let call ← Construction.methodCall (← Construction.expr (.construct cls [])) "intersection" []
  let f ← Construction.function "f" [] [] (some .void)
    [← Construction.stmt (.classDecl cls), ← Construction.stmt (.expr call)]
  let callF ← Construction.expr (.call (← Construction.ident "f") [] none)
  let (first, _) ← Construction.interface "env" [("a", .boolean), ("b", .boolean)]
  let (second, _) ← Construction.interface "K" [("c", .boolean)]
  let both ← Construction.intersectionType [first, second]
  let flags ← Construction.object [("a", ← Construction.expr (.bool true)),
    ("b", ← Construction.expr (.bool true)), ("c", ← Construction.expr (.bool false))]
  let (v, _) ← Construction.bind "v" none (some flags)
  let (i, _) ← Construction.bind "i" (some both) (some (← Construction.ident "v"))
  Construction.pushEntry (← Construction.stmt (.function f))
  Construction.pushEntry (← Construction.stmt (.expr callF))
  Construction.pushEntry v
  Construction.pushEntry i : Building Unit) {}).2.program

/-- The state once the program is compiled. -/
def namesakesWork : Work :=
  Compile.endOf (Compile.entry (.ofDepth 20)) (.of namesakes .ambient {}) .start

/-- The interfaces. -/
def namesakesParts : List (Info × List (Name × Info)) :=
  [(.object ⟨1⟩, [(⟨5⟩, .boolean), (⟨6⟩, .boolean)]), (.object ⟨2⟩, [(⟨7⟩, .boolean)])]

/-- An object in memory: a record of the addresses of three truth values. -/
def threeFlags : State where
  memory := { heap := #[.agg [address 1, address 2, address 3], .bool true, .bool true, .bool false]
    }
  fuel := 100

/-- Whether the code that was written, with an object given, traps at a field that the record
lacks. -/
def missesField (written : EStateM.Result Failure Work (Operand × Frame)) : Bool :=
  match written with
  | .error _ _ => false
  | .ok (_, f) w' =>
    match f.draft.blocks[0]? with
    | none => false
    | some k =>
      match execInsts w'.code.types (fun _ _ => throw .nestingLimit)
        ((Array.replicate f.draft.values.size .undef).setIfInBounds 0 (address 0)) k.insts.toList
        threeFlags with
      | .error t _ => t = .outOfBounds 1
      | .ok _ _ => false

/-- The record of the intersection is that of the environment of the method, which has one field.
The object has all properties of the members, but it cannot be put into the intersection. -/
theorem environment_record_taken : ∃ shape, namesakesWork.registry.intersection? ⟨3⟩ = some shape ∧
    shape.fields = namesakesParts.flatMap (·.2) ∧
    shape.segments = segmentsOf namesakes 0 [⟨7⟩, ⟨8⟩] namesakesParts ∧
    (namesakesWork.registry.object? ⟨0⟩).map (·.props) = some shape.fields ∧
    (namesakesWork.registry.object? ⟨1⟩).map (·.props) = some [(⟨5⟩, .boolean), (⟨6⟩, .boolean)] ∧
    (namesakesWork.registry.object? ⟨2⟩).map (·.props) = some [(⟨7⟩, .boolean)] ∧
    namesakesWork.code.types.fields? shape.record = some [.ptr] ∧
    ∃ back f w' k st,
      (do
        let inside ← Emit.intersectionInit (.ofDepth 20) (.boxed ⟨0⟩ (.object ⟨0⟩)) ⟨3⟩
        Emit.intersectionExtract (.ofDepth 20) inside ⟨3⟩ (.object ⟨2⟩) : Emit Operand) givenObject
          (.of namesakes .ambient {}) namesakesWork = .ok (back, f) w' ∧
      f.draft.blocks[0]? = some k ∧
      execInsts w'.code.types (fun _ _ => throw .nestingLimit)
        ((Array.replicate f.draft.values.size .undef).setIfInBounds 0 (address 0)) k.insts.toList
        threeFlags = .error (.outOfBounds 1) st := by
  have made : (namesakesWork.registry.intersection? ⟨3⟩).map (fun shape => decide
      (shape.fields = namesakesParts.flatMap (·.2) ∧
      shape.segments = segmentsOf namesakes 0 [⟨7⟩, ⟨8⟩] namesakesParts ∧
      (namesakesWork.registry.object? ⟨0⟩).map (·.props) = some shape.fields ∧
      (namesakesWork.registry.object? ⟨1⟩).map (·.props) = some [(⟨5⟩, .boolean), (⟨6⟩, .boolean)] ∧
      (namesakesWork.registry.object? ⟨2⟩).map (·.props) = some [(⟨7⟩, .boolean)] ∧
      namesakesWork.code.types.fields? shape.record = some [.ptr])) = some true := by
    decide +kernel
  obtain ⟨shape, known, isMade⟩ := Option.map_eq_some_iff.mp made
  obtain ⟨fields, segments, whole, first, second, laid⟩ := of_decide_eq_true isMade
  refine ⟨shape, known, fields, segments, whole, first, second, laid, ?_⟩
  have runs : missesField ((do
      let inside ← Emit.intersectionInit (.ofDepth 20) (.boxed ⟨0⟩ (.object ⟨0⟩)) ⟨3⟩
      Emit.intersectionExtract (.ofDepth 20) inside ⟨3⟩ (.object ⟨2⟩) : Emit Operand) givenObject
        (.of namesakes .ambient {}) namesakesWork) = true := by
    decide +kernel
  unfold missesField at runs
  split at runs
  · cases runs
  · rename_i back f w' written
    split at runs
    · cases runs
    · rename_i k isBlock
      split at runs
      · rename_i t st ran
        exact ⟨back, f, w', k, st, written, isBlock, of_decide_eq_true runs ▸ ran⟩
      · cases runs

/-- Taking an object out of an intersection, if it compiles: its properties are fields that follow
each other, the only ones that have its types in this order, else those of the segment declared as
it, or named like it. Where they have its types, as all but those that are only named like it do,
the new record holds their values in order, whatever their names are. The fields of a member are its
own. -/
theorem projection_by_types (p : Program) (r : Resolver) (c : Config) (depth : Nat) {x : Stage}
    {id t : ShapeId} {shape : IntersectionShape} {members : List TypeId}
    {parts : List (Info × List (Name × Info))} {o : ObjectShape} {ptr : ValueId} {k : Nat}
    {items : List Value} {back : Operand} {f : Frame} {w : Work}
    (moment : Moment (.of p r c) x.work)
    (has : x.HasIntersection p id shape members parts)
    (hasObject : x.work.registry.object? t = some o)
    (named : o.props.map (·.1) ≠ [.empty]) (isPtr : x.Knows ptr (address k))
    (cell : x.memory.heap[k]? = some (.agg items)) (all : items.length = shape.fields.length)
    (written : ∀ q ∈ items, q ≠ .undef)
    (ran : Emit.intersectionExtract (.ofDepth (depth + 1))
    (.boxed ptr (.intersection id)) id (.object t)
      x.frame (.of p r c) x.work = .ok (back, f) w) :
    ∃ start, shape.TakenFrom (.object t) ((Info.object t).describe p x.work.registry) o.props
    start ∧
      start + o.props.length ≤ shape.fields.length ∧
      (shape.runs o.props = [start] ∨ (Info.object t, o.props) ∈ parts →
        shape.runFits o.props start = true) ∧
      ((Info.object t, o.props) ∈ parts → (shape.fields.drop start).take o.props.length = o.props) ∧
      (shape.runFits o.props start = true → ∃ x' made, x'.frame = f ∧ x'.work = w ∧
      x.Goes (.of p r c) x' ∧
        back = .boxed made (.object t) ∧
        Emit.Making x made (.agg ((items.drop start).take o.props.length)) x') := by
  obtain ⟨start, found⟩ := Emit.findMember_of_ran has.known hasObject ran
  have taken := IntersectionShape.findMember_eq_some_iff.mp found
  have own (member : (Info.object t, o.props) ∈ parts) := has.own_fields hasObject member taken
  have within : start + o.props.length ≤ shape.fields.length := by
    cases taken with
    | run only => exact (shape.of_runs_eq only).2.1
    | member _ first long =>
      obtain ⟨part, _, _, isLong, inside, _⟩ := has.covers.segment_fields has.count
        (List.mem_of_find?_eq_some first)
      rwa [← long, isLong]
    | named _ _ first long =>
      obtain ⟨part, _, _, isLong, inside, _⟩ := has.covers.segment_fields has.count
        (List.mem_of_find?_eq_some first)
      rwa [← long, isLong]
  refine ⟨start, taken, within, ?_, fun member => (own member).2, fun fits => ?_⟩
  · rintro (only | member)
    · exact (shape.of_runs_eq only).2.2
    · exact shape.runFits_of_own within (own member).2
  · obtain ⟨back', x', ran', goes, made, rfl, making⟩ :=
      Emit.intersectionExtract_achieves depth moment
      has.known hasObject named found within fits isPtr cell all written
    cases ran.symm.trans ran'
    exact ⟨x', made, rfl, rfl, goes, rfl, making⟩

/-- The second member is taken from the second field, though the first one looks like it too. -/
theorem projection_by_types_reordered : ∃ (x' : Stage) (ptr : ValueId) (k : Nat),
    Emit.intersectionExtract (.ofDepth 20) (.boxed ⟨0⟩ (.intersection ⟨2⟩)) ⟨2⟩
    (.object ⟨1⟩) givenObject
      (.of reordered .ambient {}) reorderedWork = .ok (.boxed ptr (.object ⟨1⟩), x'.frame) x'.work ∧
    (givenAddress reorderedWork 0 flagsAtZero).Goes (.of reordered .ambient {}) x' ∧
    x'.Knows ptr (address k) ∧ x'.memory.heap[k]? = some (.agg [address 2]) := by
  obtain ⟨shape, has, fields, _⟩ := reordered_intersection
  obtain ⟨o, hasObject, isProps⟩ := reordered_object ⟨1⟩ [(⟨2⟩, .boolean)] (by decide +kernel)
  have member : (Info.object ⟨1⟩, o.props) ∈ reorderedParts := by
    rw [isProps]
    simp [reorderedParts]
  have moment := compile_moment 20 reordered .ambient {}
  have notScalar : o.props.map (·.1) ≠ [.empty] := by
    rw [isProps]
    decide
  have isPtr : (givenAddress reorderedWork 0 flagsAtZero).Knows ⟨0⟩ (address 0) :=
    ⟨Nat.zero_lt_one, rfl⟩
  have all : [address 1, address 2].length = shape.fields.length := by rw [fields]; rfl
  have written : ∀ q ∈ [address 1, address 2], q ≠ .undef := by simp
  -- it compiles
  obtain ⟨start, taken⟩ := has.taken hasObject member
    ((Info.object ⟨1⟩).describe reordered reorderedWork.registry)
  obtain ⟨within, own⟩ := has.own_fields hasObject member taken
  obtain ⟨_, _, ran, _⟩ := Emit.intersectionExtract_achieves 19 moment has.known hasObject notScalar
    (IntersectionShape.findMember_eq_some_iff.mpr taken) within
      (shape.runFits_of_own within own) isPtr rfl all
    written
  obtain ⟨start, _, within, fits, own, runs⟩ :=
    projection_by_types reordered .ambient {} 19 moment has
    hasObject notScalar isPtr rfl all written ran
  obtain ⟨x', ptr, isFrame, isWork, goes, rfl, made⟩ := runs (fits (.inr member))
  obtain ⟨k, _, isMade, cell⟩ := made.made
  refine ⟨x', ptr, k, by rw [isFrame, isWork]; exact ran, goes, isMade, ?_⟩
  -- of the two fields, only the second one is `b`
  have isOwn := own member
  rw [fields, isProps] at isOwn within
  obtain rfl : start = 1 := by
    match start, within with
    | 0, _ => simp at isOwn
    | 1, _ => rfl
  rwa [isProps] at cell

/-- An object with the properties the other way round gets the values in the order of the fields:
under `b`, its first property, is what the field `a` holds. -/
theorem fields_taken_by_type : ∃ shape o,
    reorderedWork.registry.intersection? ⟨2⟩ = some shape ∧
    shape.fields = [(⟨1⟩, .boolean), (⟨2⟩, .boolean)] ∧
    reorderedWork.registry.object? ⟨4⟩ = some o ∧ o.props = [(⟨2⟩, .boolean), (⟨1⟩, .boolean)] ∧
    Emit.Achieves (.of reordered .ambient {}) (givenAddress reorderedWork 0 flagsAtZero)
      (Emit.intersectionExtract (.ofDepth 20) (.boxed ⟨0⟩ (.intersection ⟨2⟩)) ⟨2⟩ (.object ⟨4⟩))
      fun back x' => ∃ ptr k, back = .boxed ptr (.object ⟨4⟩) ∧ x'.Knows ptr (address k) ∧
        x'.memory.heap[k]? = some (.agg [address 1, address 2]) := by
  obtain ⟨shape, has, fields, _⟩ := reordered_intersection
  obtain ⟨o, hasObject, isProps⟩ := reordered_object ⟨4⟩ [(⟨2⟩, .boolean), (⟨1⟩, .boolean)]
    (by decide +kernel)
  have isPtr : (givenAddress reorderedWork 0 flagsAtZero).Knows ⟨0⟩ (address 0) :=
    ⟨Nat.zero_lt_one, rfl⟩
  have cell : (givenAddress reorderedWork 0 flagsAtZero).memory.heap[0]? =
      some (.agg [address 1, address 2]) := rfl
  have all : [address 1, address 2].length = shape.fields.length := by rw [fields]; rfl
  have only : shape.runs o.props = [0] := by
    unfold IntersectionShape.runs IntersectionShape.runFits
    rw [fields, isProps]
    decide
  obtain ⟨_, within, fits⟩ := shape.of_runs_eq only
  refine ⟨shape, o, has.known, fields, hasObject, isProps, ?_⟩
  refine (Emit.intersectionExtract_achieves 19 (compile_moment 20 reordered .ambient {})
    has.known hasObject
    (by rw [isProps]; decide) (IntersectionShape.findMember_eq_some_iff.mpr (.run only))
      within fits isPtr
    cell all (by simp)).mono ?_
  rintro _ x' _ ⟨ptr, rfl, made⟩
  obtain ⟨k, _, isMade, cell⟩ := made.made
  refine ⟨ptr, k, rfl, isMade, ?_⟩
  rwa [isProps] at cell

end ShapeCompiler
