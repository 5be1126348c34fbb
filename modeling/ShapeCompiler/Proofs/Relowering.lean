import ShapeCompiler.Proofs.Intersections

/-!
# Lowering a type again

A type is lowered wherever it is met. What it needs is made the first time and found from then on:
shapes by their names, the records of classes in a table.

* `Work.Widens`: what lowering leaves as it is, whether it succeeds or not;
* `Compile.Repeats`: a step that comes out the same in every state that widens the one it ended in;
* `Compile.infoAt_repeats`: lowering a type is such a step;
* `Compile.relowering_stable`: so a type that was lowered once becomes the same again, whatever else
  is lowered in between.

The shapes that type parameters are bound to have to be there: the name of a shape tells its parts
by their names, and a shape that is not there has none (`Compile.relowering_of_unregistered`).
-/

namespace ShapeCompiler

open Source Code Work

namespace Work

/-- Shapes and the records of classes stay, and the same interfaces are in progress. -/
structure Widens (w w' : Work) : Prop where
  shapes : w.registry.shapes.toList <+: w'.registry.shapes.toList
  layouts : w.KeepsLayouts w'
  inProgress : w'.interfacesInProgress = w.interfacesInProgress

theorem Widens.refl (w : Work) : w.Widens w := ⟨List.prefix_refl _, fun _ _ h => h, rfl⟩

theorem Widens.trans {w w' w'' : Work} (h : w.Widens w') (h' : w'.Widens w'') : w.Widens w'' where
  shapes := h.shapes.trans h'.shapes
  layouts cls layout known := h'.layouts cls layout (h.layouts cls layout known)
  inProgress := h'.inProgress.trans h.inProgress

end Work

/-- The shapes of what type parameters are bound to are registered. -/
def Bindings.Known (b : Bindings) (r : Registry) : Prop :=
  ∀ n i, b.lookup n = some i → i.KnownIn r

theorem Bindings.known_root (r : Registry) : Bindings.root.Known r := fun _ _ bound => nomatch bound

theorem Bindings.Known.further {b : Bindings} {r r' : Registry} (h : b.Known r)
    (more : r.shapes.toList <+: r'.shapes.toList) : b.Known r' :=
  fun n i bound => (h n i bound).further more

namespace Compile

variable {s : Setup} {w : Work} {α β : Type}

/-! ## Steps that can be repeated -/

/-- The step leaves what is there. Under the condition, what it gives has the property, and it gives
the same in every state that widens the one it ended in, without changing it. -/
def Repeats (s : Setup) (w : Work) (c : Prop) (m : Compile α) (Q : α → Registry → Prop) : Prop :=
  match m s w with
  | .ok a w' => w.Widens w' ∧ (c → Q a w'.registry ∧ ∀ v, w'.Widens v → m s v = .ok a v)
  | .error _ w' => w.Widens w'

namespace Repeats

variable {c c' : Prop} {m : Compile α} {Q R : α → Registry → Prop}

theorem of_ok (h : Repeats s w c m Q) {a : α} {w' : Work} (ran : m s w = .ok a w') :
    w.Widens w' ∧ (c → Q a w'.registry ∧ ∀ v, w'.Widens v → m s v = .ok a v) := by
  rwa [Repeats, ran] at h

theorem widens (h : Repeats s w c m Q) : w.Widens (endOf m s w) := by
  unfold endOf
  unfold Repeats at h
  cases ran : m s w with
  | ok a w' =>
    rw [ran] at h
    exact h.1
  | error e w' => rwa [ran] at h

/-- A step that always succeeds where it may be repeated. -/
theorem same {a : α} (h : ∀ v, w.Widens v → m s v = .ok a v) (is : c → Q a w.registry) :
    Repeats s w c m Q := by
  rw [Repeats, h w (.refl w)]
  exact ⟨.refl w, fun holds => ⟨is holds, h⟩⟩

theorem pure {a : α} (is : c → Q a w.registry) : Repeats s w c (Pure.pure a) Q :=
  .same (fun _ _ => rfl) is

theorem failed {e : Failure} {w' : Work} (ran : m s w = .error e w') (widens : w.Widens w') :
    Repeats s w c m Q := by
  rwa [Repeats, ran]

theorem mono (h : Repeats s w c m Q) (given : c' → c) (weaker : ∀ a r, Q a r → R a r) :
    Repeats s w c' m R := by
  unfold Repeats at h ⊢
  cases ran : m s w with
  | ok a w' =>
    rw [ran] at h
    exact ⟨h.1, fun holds => (h.2 (given holds)).imp_left (weaker a _)⟩
  | error e w' => rwa [ran] at h

theorem bind {f : α → Compile β} {R : β → Registry → Prop} (first : Repeats s w c m Q)
    (rest : ∀ a w₁, w.Widens w₁ → (c → Q a w₁.registry) → Repeats s w₁ c (f a) R) :
    Repeats s w c (m >>= f) R := by
  unfold Repeats
  rw [bind_apply]
  cases ran : m s w with
  | error e w₁ => simpa only [Repeats, ran] using first
  | ok a w₁ =>
    obtain ⟨widens, repeated⟩ := first.of_ok ran
    have second := rest a w₁ widens fun holds => (repeated holds).1
    dsimp only
    cases ran₁ : f a s w₁ with
    | error e w₂ => exact widens.trans (by simpa only [Repeats, ran₁] using second)
    | ok b w₂ =>
      obtain ⟨widens₁, repeated₁⟩ := second.of_ok ran₁
      refine ⟨widens.trans widens₁, fun holds => ⟨(repeated₁ holds).1, fun v later => ?_⟩⟩
      rw [bind_of_ok ((repeated holds).2 v (widens₁.trans later))]
      exact (repeated₁ holds).2 v later

theorem asks_bind {question : Program → Except ProgramError α} {f : α → Compile β}
    {R : β → Registry → Prop} (rest : ∀ a, question s.program = .ok a → Repeats s w c (f a) R) :
    Repeats s w c (asks question >>= f) R := by
  cases answer : question s.program with
  | error e =>
    have failed : (asks question >>= f) s w = .error (.bare (.invalid (.program e))) w := by
      rw [bind_apply, asks_apply, answer]
    exact .failed failed (.refl w)
  | ok a =>
    have same (v : Work) : (asks question >>= f) s v = f a s v := by
      rw [bind_apply, asks_apply, answer]
    have h := rest a answer
    unfold Repeats at h ⊢
    simpa only [same] using h

theorem program_bind {f : Program → Compile β} {R : β → Registry → Prop}
    (rest : Repeats s w c (f s.program) R) : Repeats s w c (program >>= f) R := rest

/-- By induction on the list: a step for each of its elements. -/
theorem mapM {f : α → Compile β} {P : β → Registry → Prop}
    (stays : ∀ b r r', P b r → r.shapes.toList <+: r'.shapes.toList → P b r') (as : List α)
    (each : ∀ a ∈ as, ∀ v, w.Widens v → Repeats s v c (f a) P) :
    Repeats s w c (as.mapM f) fun bs r => ∀ b ∈ bs, P b r := by
  induction as generalizing w with
  | nil => exact .pure fun _ _ inside => nomatch inside
  | cons a as ih =>
    rw [List.mapM_cons]
    refine .bind (each a List.mem_cons_self w (.refl w)) fun b w₁ widens first => ?_
    refine .bind (ih fun a' inside v later =>
      each a' (List.mem_cons_of_mem _ inside) v (widens.trans later)) fun bs w₂ widens₁ others => ?_
    refine .pure fun holds => List.forall_mem_cons.mpr ⟨?_, others holds⟩
    exact stays b _ _ (first holds) widens₁.shapes

end Repeats

/-! ## Shapes -/

theorem shapeNamed_widens {name : String} {fields : List TyId} {make : TyId → Shape} {id : ShapeId}
    {w' : Work} (ran : shapeNamed name fields make s w = .ok id w') : w.Widens w' := by
  rw [shapeNamed, registry_bind_apply] at ran
  cases found : w.registry.shapeByName name with
  | some first =>
    rw [found] at ran
    cases ran
    exact .refl w
  | none =>
    rw [found] at ran
    cases ran
    exact ⟨Registry.register_prefix _, fun _ _ h => h, rfl⟩

/-- A shape is asked for by a name; while the name stays the shape is found again. -/
theorem Repeats.of_named {c : Prop} {m : Compile ShapeId} (name : Registry → String)
    (request : ∀ v, ∃ fields make, Shape.Asked s.program v.registry (name v.registry) fields make ∧
      m s v = shapeNamed (name v.registry) fields make s v)
    (kept : c → ∀ r, w.registry.shapes.toList <+: r.shapes.toList → name r = name w.registry) :
    Repeats s w c m fun id r => (r.shape? id).isSome := by
  obtain ⟨fields, make, asked, isRequest⟩ := request w
  obtain ⟨id, w', ran, answers⟩ := shapeNamed_spec asked
  have widens := shapeNamed_widens ran
  rw [Repeats, isRequest, ran]
  refine ⟨widens, fun holds => ⟨Registry.knownIn_of_shapeByName answers.found, fun v later => ?_⟩⟩
  have found : v.registry.shapeByName (name v.registry) = some id := by
    rw [kept holds _ (widens.shapes.trans later.shapes)]
    exact Registry.shapeByName_of_prefix later.shapes answers.found
  obtain ⟨fields', make', asked', isRequest'⟩ := request v
  obtain ⟨id', v', ran', answers'⟩ := shapeNamed_spec asked'
  obtain ⟨rfl, rfl⟩ := answers'.old id found
  rw [isRequest', ran']

theorem shapeOfObject_repeats {c : Prop} {props : List (Name × Info)}
    (known : c → ∀ prop ∈ props, prop.2.KnownIn w.registry) :
    Repeats s w c (shapeOfObject props) fun id r => (r.shape? id).isSome :=
  .of_named (fun r => objectName s.program r props)
    (fun v => ⟨_, _, .object props, shapeOfObject_apply props s v⟩)
    fun holds _ more => objectName_eq (known holds) more

theorem shapeOfUnion_repeats {c : Prop} {members : List Info} {nullable : Bool}
    (known : c → ∀ member ∈ members, member.KnownIn w.registry) :
    Repeats s w c (shapeOfUnion members nullable) fun id r => (r.shape? id).isSome :=
  .of_named (fun r => unionName s.program r members nullable)
    (fun v => ⟨_, _, .union members nullable, shapeOfUnion_apply members nullable s v⟩)
    fun holds _ more => unionName_further _ (known holds) more

theorem shapeOfIntersection_repeats {c : Prop} (segments : List Segment)
    (fields : List (Name × Info)) :
    Repeats s w c (shapeOfIntersection segments fields) fun id r => (r.shape? id).isSome :=
  .of_named (fun _ => intersectionName segments)
    (fun _ => ⟨_, _, .intersection segments fields, rfl⟩)
    fun _ _ _ => rfl

theorem objectShape_repeats {c : Prop} (id : ShapeId) :
    Repeats s w c (objectShape id) fun _ _ => True := by
  cases known : w.registry.object? id with
  | none =>
    refine .failed (e := .bare (.invalid (.notShape (w.registry.shapeName id) .object))) ?_
      (.refl w)
    rw [objectShape, registry_bind_apply, known]
    rfl
  | some shape =>
    refine .same (a := shape) (fun v later => ?_) fun _ => trivial
    have still := Registry.shape?_of_prefix later.shapes (Registry.object?_eq_some_iff.mp known)
    rw [objectShape, registry_bind_apply, Registry.object?_eq_some_iff.mpr still]
    rfl

theorem intersectionShape_repeats {c : Prop} (id : ShapeId) :
    Repeats s w c (intersectionShape id) fun _ _ => True := by
  cases known : w.registry.intersection? id with
  | none =>
    refine .failed (e := .bare (.invalid (.notShape (w.registry.shapeName id) .intersection))) ?_
      (.refl w)
    rw [intersectionShape, registry_bind_apply, known]
    rfl
  | some shape =>
    refine .same (a := shape) (fun v later => ?_) fun _ => trivial
    have still := Registry.shape?_of_prefix later.shapes
      (Registry.intersection?_eq_some_iff.mp known)
    rw [intersectionShape, registry_bind_apply, Registry.intersection?_eq_some_iff.mpr still]
    rfl

/-! ## Classes -/

/-- Everything that the layout of a class is made of, but for the record of it. -/
def newLayoutBy (part : PartInfo) (cls : DeclId) : Compile ClassLayout := do
  let hasTable ← hasTable (← asks (·.classChain cls))
  let props ← (← asks (·.instanceProperties cls)).mapM fun d => do
    let info ← propertyInfoBy part d
    return ((← asks (·.decl d)).name, d, info)
  let size := props.length + if hasTable then 1 else 0
  let (_, record) ← freshRecord ("class." ++ (← declName cls)) size
  return { record, hasTable, props }

theorem layoutBy_new {part : PartInfo} {cls : DeclId} (new : w.layouts.get? cls = none) :
    layoutBy part cls s w = match newLayoutBy part cls s w with
      | .ok layout w' => .ok layout { w' with layouts := w'.layouts.insert cls layout }
      | .error e w' => .error e w' := by
  have here : (get : Compile Work) s w = .ok w w := rfl
  have made : layoutBy part cls s w = (do
      let layout ← newLayoutBy part cls
      modify fun w => { w with layouts := w.layouts.insert cls layout }
      return layout : Compile ClassLayout) s w := by
    rw [layoutBy, bind_of_ok here, new]
    simp only [newLayoutBy, bind_assoc, pure_bind]
  rw [made, bind_apply]
  cases newLayoutBy part cls s w <;> rfl

theorem freshRecord_repeats (base : String) (size : Nat) :
    Repeats s w False (freshRecord base size) fun _ _ => True := by
  refine ⟨⟨List.prefix_refl _, fun _ _ h => h, rfl⟩, False.elim⟩

/-! ## Infos -/

/-- The parts of types can be lowered again. -/
def PartsRepeat (s : Setup) (part : PartInfo) : Prop :=
  ∀ w b t, Repeats s w (b.Known w.registry) (part b t) fun i r => i.KnownIn r

section Infos

variable {part : PartInfo} (hp : PartsRepeat s part) {b : Bindings} {c : Prop}

include hp

theorem objectInfoBy_repeats (known : c → b.Known w.registry) (fields : List (Name × TypeId)) :
    Repeats s w c (objectInfoBy part b fields) fun i r => i.KnownIn r := by
  refine .bind (Q := fun props r => ∀ prop ∈ props, prop.2.KnownIn r) (.mapM
    (fun _ _ _ known more => known.further more) fields fun field _ v later => ?_) ?_
  · exact .bind ((hp v b field.2).mono (fun holds => (known holds).further later.shapes)
      fun _ _ h => h)
      fun _ _ _ isKnown => .pure isKnown
  · intro props w₁ _ isKnown
    exact .bind (shapeOfObject_repeats isKnown) fun _ _ _ isKnown => .pure isKnown

theorem interfaceInfoBy_repeats (known : c → b.Known w.registry) (d : DeclId) :
    Repeats s w c (interfaceInfoBy part b d) fun i r => i.KnownIn r := by
  by_cases inside : d ∈ w.interfacesInProgress
  · refine .same (a := .any) (fun v later => ?_) fun _ => trivial
    change (if d ∈ v.interfacesInProgress then _ else _ : Compile Info) s v = _
    rw [later.inProgress, if_pos inside]
    rfl
  · have unmarked {busy : List DeclId} (marked : busy = d :: w.interfacesInProgress) :
        busy.filter (· ≠ d) = w.interfacesInProgress := by
      rw [marked, List.filter_cons_of_neg (by simp), List.filter_eq_self]
      exact fun x there => decide_eq_true (ne_of_mem_of_not_mem there inside)
    have properties : Repeats s { w with interfacesInProgress := d :: w.interfacesInProgress } c
        (asks (·.interfaceFields d) >>= objectInfoBy part b) fun i r => i.KnownIn r :=
      .asks_bind fun fields _ =>
        objectInfoBy_repeats hp (w := { w with interfacesInProgress :=
          d :: w.interfacesInProgress })
          known fields
    unfold Repeats at properties ⊢
    rw [interfaceInfoBy_apply b inside]
    cases ran : (asks (·.interfaceFields d) >>= objectInfoBy part b : Compile Info) s
        { w with interfacesInProgress := d :: w.interfacesInProgress } with
    | error e w' =>
      rw [ran] at properties
      exact ⟨properties.shapes, properties.layouts, unmarked properties.inProgress⟩
    | ok i w' =>
      rw [ran] at properties
      obtain ⟨widens, repeated⟩ := properties
      refine ⟨⟨widens.shapes, widens.layouts, unmarked widens.inProgress⟩,
        fun holds => ⟨(repeated holds).1, fun v later => ?_⟩⟩
      have before : v.interfacesInProgress = w.interfacesInProgress :=
        later.inProgress.trans (unmarked widens.inProgress)
      have again := (repeated holds).2 { v with interfacesInProgress :=
        d :: v.interfacesInProgress }
        ⟨later.shapes, later.layouts, (congrArg (d :: ·) before).trans widens.inProgress.symm⟩
      rw [interfaceInfoBy_apply b (before ▸ inside), again]
      dsimp only
      rw [before, unmarked rfl, ← before]

theorem unionInfoBy_repeats (known : c → b.Known w.registry) (members : List TypeId) :
    Repeats s w c (unionInfoBy part b members) fun i r => i.KnownIn r := by
  refine .bind (Q := fun infos r => ∀ i ∈ infos, i.KnownIn r) (.mapM
    (fun _ _ _ known more => known.further more) members fun t _ v later => ?_) ?_
  · split
    · exact .pure fun _ => trivial
    · exact (hp v b t).mono (fun holds => (known holds).further later.shapes) fun _ _ h => h
  · intro infos w₁ _ isKnown
    have members {only : List Info} {nullable : Bool} (split : splitNull infos = (only, nullable))
        (holds : c) : ∀ i ∈ only, i.KnownIn w₁.registry := fun i inside =>
      isKnown holds i (splitNull_subset infos i (by rwa [split]))
    split
    · exact .pure fun _ => trivial
    · rename_i only split
      exact .pure fun holds => members split holds only (by simp)
    · rename_i several nullable _ _ split
      exact .bind (shapeOfUnion_repeats (members split)) fun _ _ _ isKnown => .pure isKnown

theorem propertyInfoBy_repeats (d : DeclId) :
    Repeats s w c (propertyInfoBy part d) fun _ _ => True := by
  refine .asks_bind fun property _ => .program_bind ?_
  split
  · exact .pure fun _ => trivial
  · exact (hp w .root property.ty).mono (fun _ => Bindings.known_root _) fun _ _ _ => trivial

/-- Making a layout leaves what is there. It is not made twice, so nothing more is said of it. -/
theorem newLayoutBy_repeats (cls : DeclId) :
    Repeats s w False (newLayoutBy part cls) fun _ _ => True := by
  refine .asks_bind fun chain _ => .bind (Q := fun _ _ => True) (.bind (Q := fun _ _ => True) ?_
    fun _ _ _ _ => .pure fun _ => trivial) fun hasTable w₁ _ _ => .asks_bind fun ids _ => ?_
  · refine (Repeats.mapM (P := fun _ _ => True) (fun _ _ _ _ _ => trivial) chain fun d _ v _ =>
      .asks_bind fun _ _ => .pure fun _ => trivial).mono id fun _ _ _ => trivial
  · refine .bind (Repeats.mapM (P := fun _ _ => True) (fun _ _ _ _ _ => trivial) ids fun d _ v _ =>
      ?_) fun props w₂ _ _ => ?_
    · exact .bind (propertyInfoBy_repeats hp d) fun _ _ _ _ => .asks_bind fun _ _ =>
        .pure fun _ => trivial
    · exact .bind (Q := fun _ _ => True) (.program_bind (.pure fun _ => trivial)) fun name _ _ _ =>
        .bind (freshRecord_repeats _ _) fun _ _ _ _ => .pure fun _ => trivial

/-- A class is laid out once. Its own layout may have been made while its properties were lowered;
it is made anew then, but what was there at the start stays. -/
theorem layoutBy_repeats (cls : DeclId) : Repeats s w c (layoutBy part cls) fun _ _ => True := by
  cases found : w.layouts.get? cls with
  | some layout =>
    exact .same (fun v later => layoutBy_known (later.layouts cls layout found)) fun _ => trivial
  | none =>
    have made := newLayoutBy_repeats hp (w := w) cls
    unfold Repeats at made ⊢
    rw [layoutBy_new found]
    cases ran : newLayoutBy part cls s w with
    | error e w' => simpa only [ran] using made
    | ok layout w' =>
      rw [ran] at made
      refine ⟨⟨made.1.shapes, fun other old known => ?_, made.1.inProgress⟩,
        fun _ => ⟨trivial, fun v later => layoutBy_known (later.layouts cls layout ?_)⟩⟩
      · have apart : cls ≠ other := by
          rintro rfl
          cases found.symm.trans known
        exact (Table.get?_insert_ne _ _ apart).trans (made.1.layouts other old known)
      · exact Table.get?_insert_self _ _ _

theorem memberFieldsBy_repeats (i : Info) :
    Repeats s w c (memberFieldsBy part i) fun _ _ => True := by
  cases i with
  | object id => exact .bind (objectShape_repeats id) fun _ _ _ _ => .pure fun _ => trivial
  | intersection id =>
    exact .bind (intersectionShape_repeats id) fun _ _ _ _ => .pure fun _ => trivial
  | instanceOf cls => exact .bind (layoutBy_repeats hp cls) fun _ _ _ _ => .pure fun _ => trivial
  | _ => exact .pure fun _ => trivial

theorem segmentsBy_repeats (known : c → b.Known w.registry) (start : Nat) (members : List TypeId) :
    Repeats s w c (segmentsBy part b start members) fun _ _ => True := by
  induction members generalizing w start with
  | nil => exact .pure fun _ => trivial
  | cons t rest ih =>
    refine .bind ((hp w b t).mono known fun _ _ h => h) fun member w₁ widens _ => ?_
    refine .bind (memberFieldsBy_repeats hp member) fun own w₂ widens₁ _ => .program_bind ?_
    exact .bind (ih (fun holds => (known holds).further (widens.trans widens₁).shapes) _)
      fun _ _ _ _ => .pure fun _ => trivial

theorem intersectionInfoBy_repeats (known : c → b.Known w.registry) (members : List TypeId) :
    Repeats s w c (intersectionInfoBy part b members) fun i r => i.KnownIn r :=
  .bind (segmentsBy_repeats hp known 0 members) fun _ _ _ _ =>
    .bind (shapeOfIntersection_repeats _ _) fun _ _ _ isKnown => .pure isKnown

end Infos

/-- By induction on the depth: the parts of a type are one step less deep. -/
theorem infoAt_repeats (depth : Nat) : PartsRepeat s (infoAt depth) := by
  intro w b t
  induction depth generalizing w b t with
  | zero => exact .failed rfl (.refl w)
  | succ depth ih =>
    refine .program_bind ?_
    split
    case h_9 => exact interfaceInfoBy_repeats ih id _
    case h_10 => exact objectInfoBy_repeats ih id _
    case h_11 => exact unionInfoBy_repeats ih id _
    case h_12 => exact intersectionInfoBy_repeats ih id _
    case h_14 name isParam =>
      split
      · rename_i info bound
        exact .pure fun known => known name info bound
      · exact .failed rfl (.refl w)
    all_goals exact .pure fun _ => trivial

theorem infoOf_repeats : PartsRepeat s infoOf :=
  fun w b t => .program_bind (infoAt_repeats (typeDepth s.program) w b t)

/-! ## Lowering after lowering -/

/-- The state after some types were lowered, of which any may have failed. -/
inductive Lowerings (s : Setup) : Work → Work → Prop where
  | none {w : Work} : Lowerings s w w
  | next {w w' : Work} (b : Bindings) (t : TypeId) (before : Lowerings s w w') :
    Lowerings s w (endOf (infoOf b t) s w')

theorem Lowerings.widens {w w' : Work} (h : Lowerings s w w') : w.Widens w' := by
  induction h with
  | none => exact .refl _
  | next b t _ ih => exact ih.trans (infoOf_repeats _ b t).widens

/-- Lowering is stable: a type that was lowered becomes the same again whatever was lowered since,
well or not, and the state stays as it is; the bindings may speak of all shapes that were registered
at first. And whether or not a type can be lowered, the same interfaces are in progress afterwards
and the shapes that were there are the same. -/
theorem relowering_stable (s : Setup) :
    (∀ (w w₁ w₂ : Work) (b : Bindings) (t : TypeId) (i : Info), b.Known w.registry →
      infoOf b t s w = .ok i w₁ → Lowerings s w₁ w₂ → infoOf b t s w₂ = .ok i w₂) ∧
    ∀ (w : Work) (b : Bindings) (t : TypeId),
      (endOf (infoOf b t) s w).interfacesInProgress = w.interfacesInProgress ∧
      ∀ id shape, w.registry.shape? id = some shape →
        (endOf (infoOf b t) s w).registry.shape? id = some shape := by
  refine ⟨fun w w₁ w₂ b t i known ran between => ?_, fun w b t => ?_⟩
  · exact (((infoOf_repeats w b t).of_ok ran).2 known).2 w₂ between.widens
  · have widens := (infoOf_repeats (s := s) w b t).widens
    exact ⟨widens.inProgress, fun _ _ there => Registry.shape?_of_prefix widens.shapes there⟩

/-- A list of values of the type of a parameter, and an object beside it. -/
@[irreducible] def linkedList : Program := (Id.run <| StateT.run (do
  let value ← Construction.paramType "T"
  let node ← Construction.interfaceType ⟨0⟩
  let next ← Construction.optionalType node
  let _ ← Construction.interface "Node" [("value", value), ("next", next)]
  let _ ← Construction.objectType [("y", .number)] : Building Unit) {}).2.program

/-- The state after the list was lowered for some values, then without any, which fails, and then
the object. -/
def listedWork (i : Info) : Work :=
  let s : Setup := .of linkedList .ambient {}
  endOf (infoOf .root ⟨10⟩) s (endOf (infoOf .root ⟨8⟩) s
    (endOf (infoOf (standingFor i) ⟨8⟩) s .start))

theorem lowerings_listedWork (i : Info) : Lowerings (.of linkedList .ambient {})
    (endOf (infoOf (standingFor i) ⟨8⟩) (.of linkedList .ambient {}) .start) (listedWork i) :=
  .next .root ⟨10⟩ (.next .root ⟨8⟩ .none)

/-- A list of numbers is lowered to the second shape, and to this one again after the object got the
third. -/
theorem relowering_stable_linkedList :
    ∃ w₁ w₂, infoOf (standingFor .number) ⟨8⟩ (.of linkedList .ambient {}) .start =
        .ok (.object ⟨1⟩) w₁ ∧
      Lowerings (.of linkedList .ambient {}) w₁ w₂ ∧ w₂.registry.shapeCount = 3 ∧
      infoOf (standingFor .number) ⟨8⟩ (.of linkedList .ambient {}) w₂ = .ok (.object ⟨1⟩) w₂ := by
  have first : (infoOf (standingFor .number) ⟨8⟩).gives (.of linkedList .ambient {}) .start
      (decide <| · = .object ⟨1⟩) := by
    decide +kernel
  have shapes : (listedWork .number).registry.shapeCount = 3 := by
    decide +kernel
  obtain ⟨i, ran, isObject⟩ := of_gives first
  obtain rfl := of_decide_eq_true isObject
  have known : (standingFor .number).Known Work.start.registry := fun _ _ bound =>
    standingFor_lookup bound ▸ trivial
  exact ⟨_, _, ran, lowerings_listedWork .number, shapes,
    (relowering_stable _).1 _ _ _ _ _ _ known ran (lowerings_listedWork .number)⟩

/-- A list of objects whose shape is not there yet is lowered to the second shape. The object gets
the third one, and for this very one, now there, the list is lowered to a fourth. -/
theorem relowering_of_unregistered :
    ∃ w₁ w₂ w₃, infoOf (standingFor (.object ⟨2⟩)) ⟨8⟩ (.of linkedList .ambient {}) .start =
        .ok (.object ⟨1⟩) w₁ ∧
      Lowerings (.of linkedList .ambient {}) w₁ w₂ ∧ w₂.registry.shapeCount = 3 ∧
      infoOf (standingFor (.object ⟨2⟩)) ⟨8⟩ (.of linkedList .ambient {}) w₂ =
      .ok (.object ⟨3⟩) w₃ := by
  have first : (infoOf (standingFor (.object ⟨2⟩)) ⟨8⟩).gives (.of linkedList .ambient {}) .start
      (decide <| · = .object ⟨1⟩) := by
    decide +kernel
  have shapes : (listedWork (.object ⟨2⟩)).registry.shapeCount = 3 := by
    decide +kernel
  have again : (infoOf (standingFor (.object ⟨2⟩)) ⟨8⟩).gives (.of linkedList .ambient {})
      (listedWork (.object ⟨2⟩)) (decide <| · = .object ⟨3⟩) := by
    decide +kernel
  obtain ⟨i, ran, isObject⟩ := of_gives first
  obtain ⟨i', ran', isObject'⟩ := of_gives again
  obtain rfl := of_decide_eq_true isObject
  obtain rfl := of_decide_eq_true isObject'
  exact ⟨_, _, _, ran, lowerings_listedWork _, shapes, ran'⟩

end Compile

end ShapeCompiler
