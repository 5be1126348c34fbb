import ShapeCompiler.Proofs.Walks

/-!
# The parts of the compiler that write no code

Every part walks. Those that lay something out say what they give:

* `freshRecord_ends`, `environmentOf_ends`, `layoutOf_ends`.
-/

namespace ShapeCompiler

open Source Code Work

namespace Compile

variable {s : Setup} {w : Work} {α β : Type}

/-! ## Questions -/

theorem fail_walks {cause : Cause} (h : cause.Justified s.program) :
    Walks s (fail cause : Compile α) := .throw h

theorem invalid_walks (what : Invalid) : Walks s (invalid what : Compile α) := .throw trivial

theorem unsupported_walks (what : Unsupported) :
    Walks s (unsupported what : Compile α) := .throw trivial

theorem program_walks : Walks s program := .bind .read fun _ => .pure _

theorem runtime_walks : Walks s runtime := .bind .read fun _ => .pure _

theorem registry_walks : Walks s registry := .bind .get fun _ => .pure _

theorem asks_apply (question : Program → Except ProgramError α) (s : Setup) (w : Work) :
    asks question s w = match question s.program with
      | .ok a => .ok a w
      | .error e => .error (.bare (.invalid (.program e))) w := by
  change ask (question s.program) s w = _
  cases question s.program <;> rfl

theorem of_asks_ok {question : Program → Except ProgramError α} {s : Setup} {w w' : Work} {a : α}
    (ran : asks question s w = .ok a w') : w = w' ∧ question s.program = .ok a := by
  rw [asks_apply] at ran
  cases answer : question s.program with
  | ok a' =>
    rw [answer] at ran
    cases ran
    exact ⟨rfl, rfl⟩
  | error e =>
    rw [answer] at ran
    cases ran

/-- What follows a question goes on from the same state with the answer. -/
theorem asks_bind {question : Program → Except ProgramError α} {f : α → Compile β}
    {Q : β → Work → Prop} (h : ∀ a, question s.program = .ok a → Ends s w (f a) Q) :
    Ends s w (asks question >>= f) Q := by
  simp only [Ends, bind_apply, asks_apply]
  cases answer : question s.program with
  | ok a => exact h a answer
  | error e => exact ⟨.refl w, .bare trivial⟩

/-- The same where all steps since another state count. -/
theorem Since.asks_bind {base : Work} {question : Program → Except ProgramError α}
    {f : α → Compile β} {Q : β → Work → Prop} (there : Reaches s base w)
    (h : ∀ a, question s.program = .ok a → Since s base w (f a) Q) :
    Since s base w (asks question >>= f) Q := by
  simp only [Since, bind_apply, asks_apply]
  cases answer : question s.program with
  | ok a => exact h a answer
  | error e => exact ⟨there, .bare trivial⟩

theorem asks_walks (question : Program → Except ProgramError α) : Walks s (asks question) := by
  refine ⟨fun _ => ?_⟩
  rw [← bind_pure (asks question)]
  exact asks_bind fun a _ => .pure trivial

theorem ask_walks (answer : Except ProgramError α) : Walks s (ask answer) := by
  cases answer with
  | ok a => exact .pure a
  | error e => exact invalid_walks _

theorem resolve_walks (d : DeclId) (args : List Info) (receiver : Option Info) :
    Walks s (resolve d args receiver) := .bind .read fun _ => .pure _

theorem text_walks (n : Name) : Walks s (text n) := .bind program_walks fun _ => .pure _

theorem declName_walks (d : DeclId) : Walks s (declName d) := .bind program_walks fun _ => .pure _

theorem infoName_walks (i : Info) : Walks s (infoName i) :=
  .bind program_walks fun _ => .bind registry_walks fun _ => .pure _

theorem mismatch_walks (expected found : Info) : Walks s (mismatch expected found : Compile α) :=
  .bind (infoName_walks _) fun _ => .bind (infoName_walks _) fun _ => fail_walks trivial

theorem env_bind {id : EnvId} {f : Environment → Compile α} {Q : α → Work → Prop}
    (h : ∀ e, w.registry.env? id = some e → Ends s w (f e) Q) : Ends s w (env id >>= f) Q := by
  simp only [env, bind_assoc]
  refine .registry_bind ?_
  split
  · rename_i e known
    exact h e known
  · exact .throw trivial

theorem env_walks (id : EnvId) : Walks s (env id) := by
  refine ⟨fun _ => ?_⟩
  rw [← bind_pure (env id)]
  exact env_bind fun _ _ => .pure trivial

theorem objectShape_walks (id : ShapeId) : Walks s (objectShape id) := by
  refine .bind registry_walks fun r => ?_
  split
  · exact .pure _
  · exact invalid_walks _

theorem unionShape_walks (id : ShapeId) : Walks s (unionShape id) := by
  refine .bind registry_walks fun r => ?_
  split
  · exact .pure _
  · exact invalid_walks _

theorem intersectionShape_walks (id : ShapeId) : Walks s (intersectionShape id) := by
  refine .bind registry_walks fun r => ?_
  split
  · exact .pure _
  · exact invalid_walks _

/-- The site of a declaration was recorded, for it or for the class it belongs to. -/
theorem siteOf_bind {d : DeclId} {f : Site → Compile α} {Q : α → Work → Prop}
    (h : ∀ site, w.siteOf s.program d = .ok site → Ends s w (f site) Q) :
    Ends s w (siteOf d >>= f) Q := by
  simp only [siteOf, bind_assoc]
  refine .get_bind (.program_bind ?_)
  split
  · rename_i site found
    exact h site found
  · exact .throw trivial

theorem siteOf_walks (d : DeclId) : Walks s (siteOf d) := by
  refine ⟨fun _ => ?_⟩
  rw [← bind_pure (siteOf d)]
  exact siteOf_bind fun _ _ => .pure trivial

/-! ## Types and records -/

theorem intern_ends {ty : Ty} {Q : TyId → Work → Prop}
    (nameless : ∀ name, TypeTable.isNamed name ty = false)
    (h : Q (w.code.types.intern ty).1 { w with code :=
    { w.code with types := (w.code.types.intern ty).2 } }) :
    Ends s w (types (·.intern ty)) Q :=
  .modifyGet (.types (TypeTable.grows_intern _ ty) fun _ has => .inl (has.of_intern nameless))
    ⟨rfl, rfl, rfl, rfl, rfl⟩ h

theorem literal_walks (fields : List TyId) : Walks s (types (·.literal fields)) :=
  ⟨fun _ => intern_ends (fun _ => rfl) trivial⟩

theorem array_walks (elem : TyId) (length : Nat) : Walks s (types (·.array elem length)) :=
  ⟨fun _ => intern_ends (fun _ => rfl) trivial⟩

theorem func_walks (params : List TyId) (ret : TyId) : Walks s (types (·.func params ret)) :=
  ⟨fun _ => intern_ends (fun _ => rfl) trivial⟩

/-- A record under a new name has the fields it was made with. -/
theorem pointerRecord_ends {name : String} (fields : List TyId)
    (new : w.code.types.lookupNamed name = none) (aside : ¬ NamesShape name) :
    Ends s w (pointerRecord name fields) fun id w' =>
      w'.registry = w.registry ∧ w'.sites = w.sites ∧ w'.code.types.fields? id = some fields := by
  have others (name' : String) (has : (w.code.types.record name fields).2.HasNamed name') :
      w.code.types.HasNamed name' ∨ ¬ NamesShape name' := by
    rcases has.of_record with before | rfl
    · exact .inl before
    · exact .inr aside
  exact .modifyGet (.types (TypeTable.grows_record _ name fields) others) ⟨rfl, rfl, rfl, rfl, rfl⟩
    ⟨rfl, rfl, TypeTable.fields?_record fields new⟩

theorem lookupNamed_eq_none {t : TypeTable} {name : String}
    (new : name ∉ t.types.toList.filterMap fun
      | .named n _ => some n
      | _ => none) : t.lookupNamed name = none := by
  simp only [TypeTable.lookupNamed, Option.map_eq_none_iff, List.findIdx?_eq_none_iff]
  intro ty member
  cases ty with
  | named n fields =>
    have apart : n ≠ name := by
      rintro rfl
      exact new (List.mem_filterMap.mpr ⟨_, member, rfl⟩)
    simpa [TypeTable.isNamed] using apart
  | _ => rfl

/-- A new record has the pointers it was made for. -/
theorem freshRecord_ends {base : String} {c : Char} (first : base.toList.head? = some c)
    (notO : c ≠ 'o')
    (notU : c ≠ 'u') (size : Nat) :
    Ends s w (freshRecord base size) fun r w' =>
      w'.registry = w.registry ∧ w'.sites = w.sites ∧
        w'.code.types.fields? r.2 = some (List.replicate size .ptr) := by
  have aside (names : List String) : ¬ NamesShape (uniqueName names base) := by
    simp [NamesShape, head?_uniqueName first names, notO, notU]
  refine .get_bind ((pointerRecord_ends _ (lookupNamed_eq_none (uniqueName_not_mem _ _))
    (aside _)).bind ?_)
  intro id w' _ made
  exact .pure made

/-! ## Shapes -/

/-- A shape of a new name and its record are made in one. -/
theorem madeShape_ends {name : String} {fields : List TyId} {make : TyId → Shape}
    (asked : Shape.Asked s.program w.registry name fields make)
    (new : w.registry.shapeByName name = none) :
    Ends s w (do registerShape (make (← pointerRecord name fields))) fun _ _ => True := by
  refine ⟨.of_step (.shape asked new) ⟨rfl, rfl, rfl, rfl, ?_⟩, trivial⟩
  change (w.registry.register _).2.closures = w.registry.closures
  unfold Registry.register
  split <;> rfl

theorem shapeOfObject_walks (props : List (Name × Info)) : Walks s (shapeOfObject props) := by
  refine ⟨fun _ => .registry_bind (.program_bind ?_)⟩
  dsimp only
  split
  · exact .pure trivial
  · exact madeShape_ends (.object props) ‹_›

theorem shapeOfUnion_walks (members : List Info) (nullable : Bool) :
    Walks s (shapeOfUnion members nullable) := by
  refine ⟨fun _ => .registry_bind (.program_bind ?_)⟩
  dsimp only
  split
  · exact .pure trivial
  · exact madeShape_ends (.union members nullable) ‹_›

theorem shapeOfIntersection_walks (segments : List Segment) (fields : List (Name × Info)) :
    Walks s (shapeOfIntersection segments fields) := by
  refine ⟨fun _ => .registry_bind ?_⟩
  split
  · exact .pure trivial
  · exact madeShape_ends (.intersection segments fields) ‹_›

/-! ## Parts that record no body -/

/-- The part records no body and no table, whether it succeeds or not. -/
structure Bodiless (s : Setup) (m : Compile α) : Prop where
  bodies : ∀ w, match m s w with
    | .ok _ w' | .error _ w' => w'.recorded = w.recorded

namespace Bodiless

variable {m : Compile α}

theorem pure (a : α) : Bodiless s (Pure.pure a : Compile α) := ⟨fun _ => rfl⟩

theorem throw (e : Failure) : Bodiless s (MonadExcept.throw e : Compile α) := ⟨fun _ => rfl⟩

theorem get : Bodiless s (MonadState.get : Compile Work) := ⟨fun _ => rfl⟩

theorem program : Bodiless s program := ⟨fun _ => rfl⟩

theorem registry : Bodiless s registry := ⟨fun _ => rfl⟩

theorem read : Bodiless s (MonadReader.read : Compile Setup) := ⟨fun _ => rfl⟩

theorem modifyGet {f : Work → α × Work} (same : ∀ w, (f w).2.recorded = w.recorded) :
    Bodiless s (modifyGet f : Compile α) := ⟨fun w => same w⟩

theorem code (f : Module → α × Module) : Bodiless s (code f) := modifyGet fun _ => rfl

theorem types (f : TypeTable → α × TypeTable) : Bodiless s (types f) := modifyGet fun _ => rfl

theorem bind {f : α → Compile β} (first : Bodiless s m) (rest : ∀ a, Bodiless s (f a)) :
    Bodiless s (m >>= f) := by
  refine ⟨fun w => ?_⟩
  have one := first.bodies w
  rw [bind_apply]
  cases ran : m s w with
  | error e w₁ => simpa [ran] using one
  | ok a w₁ =>
    have two := (rest a).bodies w₁
    simp only [ran] at one
    rw [one] at two
    exact two

theorem tryCatch {handle : Failure → Compile α} (first : Bodiless s m)
    (rest : ∀ e, Bodiless s (handle e)) : Bodiless s (MonadExcept.tryCatch m handle) := by
  refine ⟨fun w => ?_⟩
  have one := first.bodies w
  rw [tryCatch_apply]
  cases ran : m s w with
  | ok a w₁ => simpa [ran] using one
  | error e w₁ =>
    have two := (rest e).bodies w₁
    simp only [ran] at one
    rw [one] at two
    exact two

theorem mapM {f : α → Compile β} (each : ∀ a, Bodiless s (f a)) (as : List α) :
    Bodiless s (as.mapM f) := by
  induction as with
  | nil => exact pure _
  | cons a as ih =>
    rw [List.mapM_cons]
    exact bind (each a) fun _ => bind ih fun _ => pure _

theorem asks (question : Program → Except ProgramError α) : Bodiless s (asks question) := by
  refine ⟨fun w => ?_⟩
  rw [asks_apply]
  cases question s.program <;> rfl

theorem resolve (d : DeclId) (args : List Info) (receiver : Option Info) :
    Bodiless s (resolve d args receiver) := bind read fun _ => pure _

theorem text (n : Name) : Bodiless s (text n) := bind program fun _ => pure _

theorem declName (d : DeclId) : Bodiless s (declName d) := bind program fun _ => pure _

theorem externalFunction (name : String) (arity : Nat) :
    Bodiless s (externalFunction name arity) := by
  refine bind get fun w => ?_
  split
  · refine bind get fun _ => ?_
    split
    · exact throw _
    · exact pure _
  · exact code _

theorem declareCompiled (name : String) (arity : Nat) : Bodiless s (declareCompiled name arity) :=
  bind (code _) fun _ => bind (modifyGet fun _ => rfl) fun _ => pure _

theorem pointerRecord (name : String) (fields : List TyId) :
    Bodiless s (pointerRecord name fields) := types _

theorem registerShape (shape : Shape) : Bodiless s (registerShape shape) := modifyGet fun _ => rfl

theorem shapeOfObject (props : List (Name × Info)) : Bodiless s (shapeOfObject props) := by
  refine bind registry fun r => bind program fun p => ?_
  dsimp only
  split
  · exact pure _
  · exact bind (pointerRecord _ _) fun _ => registerShape _

theorem shapeOfUnion (members : List Info) (nullable : Bool) :
    Bodiless s (shapeOfUnion members nullable) := by
  refine bind registry fun r => bind program fun p => ?_
  dsimp only
  split
  · exact pure _
  · exact bind (pointerRecord _ _) fun _ => registerShape _

theorem shapeOfIntersection (segments : List Segment) (fields : List (Name × Info)) :
    Bodiless s (shapeOfIntersection segments fields) := by
  refine bind registry fun r => ?_
  split
  · exact pure _
  · exact bind (pointerRecord _ _) fun _ => registerShape _

theorem objectShape (id : ShapeId) : Bodiless s (objectShape id) := by
  refine bind registry fun r => ?_
  split
  · exact pure _
  · exact throw _

theorem intersectionShape (id : ShapeId) : Bodiless s (intersectionShape id) := by
  refine bind registry fun r => ?_
  split
  · exact pure _
  · exact throw _

section Infos

variable {part : PartInfo} (hp : ∀ b t, Bodiless s (part b t))

include hp

theorem objectInfoBy (b : Bindings) (fields : List (Name × TypeId)) :
    Bodiless s (objectInfoBy part b fields) :=
  bind (mapM (fun (_, t) => bind (hp b t) fun _ => pure _) _) fun _ =>
    bind (shapeOfObject _) fun _ => pure _

theorem interfaceInfoBy (b : Bindings) (d : DeclId) : Bodiless s (interfaceInfoBy part b d) := by
  have mark (on : Bool) : Bodiless s (setInProgress d on) := modifyGet fun _ => rfl
  refine bind get fun w => ?_
  split
  · exact pure _
  · refine bind (mark true) fun _ => bind (tryCatch ?_ fun e => bind (mark false) fun _ => throw e)
      fun _ => bind (mark false) fun _ => pure _
    exact bind (asks _) fun _ => objectInfoBy hp b _

theorem unionInfoBy (b : Bindings) (members : List TypeId) :
    Bodiless s (unionInfoBy part b members) := by
  refine bind (mapM (fun t => ?_) _) fun infos => ?_
  · split
    · exact pure _
    · exact hp b t
  · split
    · exact pure _
    · exact pure _
    · exact bind (shapeOfUnion _ _) fun _ => pure _

theorem propertyInfoBy (d : DeclId) : Bodiless s (propertyInfoBy part d) := by
  refine bind (asks _) fun _ => bind program fun _ => ?_
  split
  · exact pure _
  · exact hp _ _

theorem layoutBy (cls : DeclId) : Bodiless s (layoutBy part cls) := by
  refine bind get fun w => ?_
  split
  · exact pure _
  · refine bind (asks _) fun _ => bind (bind (mapM (fun _ => bind (asks _) fun _ => pure _) _)
      fun _ => pure _) fun _ => bind (asks _) fun _ => bind (mapM (fun d => ?_) _) fun _ => ?_
    · exact bind (propertyInfoBy hp d) fun _ => bind (asks _) fun _ => pure _
    · exact bind (bind program fun _ => pure _) fun _ => bind (bind (bind get fun _ => pure _)
        fun _ => bind (pointerRecord _ _) fun _ => pure _) fun _ =>
          bind (modifyGet fun _ => rfl) fun _ => pure _

theorem memberFieldsBy (i : Info) : Bodiless s (memberFieldsBy part i) := by
  cases i with
  | object shape => exact bind (objectShape _) fun _ => pure _
  | intersection shape => exact bind (intersectionShape _) fun _ => pure _
  | instanceOf c => exact bind (layoutBy hp c) fun _ => pure _
  | _ => exact pure _

theorem segmentsBy (b : Bindings) (start : Nat) (members : List TypeId) :
    Bodiless s (segmentsBy part b start members) := by
  induction members generalizing start with
  | nil => exact pure _
  | cons t rest ih =>
    exact bind (hp b t) fun _ => bind (memberFieldsBy hp _) fun _ =>
      bind program fun _ => bind (ih _) fun _ => pure _

theorem intersectionInfoBy (b : Bindings) (members : List TypeId) :
    Bodiless s (intersectionInfoBy part b members) :=
  bind (segmentsBy hp b 0 members) fun _ => bind (shapeOfIntersection _ _) fun _ => pure _

end Infos

/-- By induction on the depth: the parts of a type are one step less deep. -/
theorem infoAt (depth : Nat) (b : Bindings) (t : TypeId) : Bodiless s (infoAt depth b t) := by
  induction depth generalizing b t with
  | zero => exact throw _
  | succ depth ih =>
    refine bind program fun p => ?_
    split
    case h_9 => exact interfaceInfoBy ih b _
    case h_10 => exact objectInfoBy ih b _
    case h_11 => exact unionInfoBy ih b _
    case h_12 => exact intersectionInfoBy ih b _
    case h_14 =>
      split
      · exact pure _
      · exact throw _
    all_goals exact pure _

end Bodiless

theorem Ends.recorded {m : Compile α} {Q : α → Work → Prop} (h : Ends s w m Q)
    (bodiless : Bodiless s m) :
    Ends s w m fun a w' => Q a w' ∧ w'.recorded = w.recorded := by
  have same := bodiless.bodies w
  unfold Ends at h ⊢
  cases ran : m s w with
  | ok a w' =>
    rw [ran] at h same
    exact ⟨h.1, h.2, same⟩
  | error e w' => simpa only [ran] using h

/-! ## What types become -/

/-- The parts of types are treated as types are, down to some depth. -/
structure Lowers (s : Setup) (part : PartInfo) : Prop where
  walks : ∀ b t, Walks s (part b t)
  same : ∃ depth, ∀ b t w, part b t s w = infoAt depth b t s w

theorem Lowers.bodiless {part : PartInfo} (h : Lowers s part) (b : Bindings) (t : TypeId) :
    Bodiless s (part b t) := by
  obtain ⟨depth, same⟩ := h.same
  refine ⟨fun w => ?_⟩
  rw [same]
  exact (Bodiless.infoAt depth b t).bodies w

section Infos

variable {part : PartInfo} (hp : Lowers s part)

include hp

theorem objectInfoBy_walks (b : Bindings) (fields : List (Name × TypeId)) :
    Walks s (objectInfoBy part b fields) :=
  .bind (.mapM (fun (_, t) => .bind (hp.walks b t) fun _ => .pure _) _) fun _ =>
    .bind (shapeOfObject_walks _) fun _ => .pure _

omit hp in
/-- While its properties are lowered an interface is marked; the mark is taken away again, also
where they fail. -/
theorem interfaceInfoBy_apply (b : Bindings) {d : DeclId} (outside : d ∉ w.interfacesInProgress) :
    interfaceInfoBy part b d s w =
      match (asks (·.interfaceFields d) >>= objectInfoBy part b : Compile Info) s
          { w with interfacesInProgress := d :: w.interfacesInProgress } with
      | .ok i w' => .ok i
        { w' with interfacesInProgress := w'.interfacesInProgress.filter (· ≠ d) }
      | .error e w' => .error e
        { w' with interfacesInProgress := w'.interfacesInProgress.filter (· ≠ d) } := by
  have starts : setInProgress d true s w =
      .ok ⟨⟩ { w with interfacesInProgress := d :: w.interfacesInProgress } := by
    have unmarked : w.interfacesInProgress.filter (fun x => decide (x ≠ d)) =
        w.interfacesInProgress :=
      List.filter_eq_self.mpr fun x inside => decide_eq_true (ne_of_mem_of_not_mem inside outside)
    change EStateM.Result.ok _ { w with interfacesInProgress :=
      d :: w.interfacesInProgress.filter (fun x => decide (x ≠ d)) } = _
    rw [unmarked]
  have stops (w' : Work) : setInProgress d false s w' =
      .ok ⟨⟩ { w' with interfacesInProgress := w'.interfacesInProgress.filter (· ≠ d) } := rfl
  change (if d ∈ w.interfacesInProgress then _ else _ : Compile Info) s w = _
  rw [if_neg outside, bind_apply, starts]
  dsimp only
  rw [bind_apply, tryCatch_apply]
  cases (asks (·.interfaceFields d) >>= objectInfoBy part b : Compile Info) s
      { w with interfacesInProgress := d :: w.interfacesInProgress } with
  | ok i w' => simp only [bind_apply, stops, Pure.pure]; rfl
  | error e w' => simp only [bind_apply, stops]; rfl

theorem interfaceInfoBy_walks (b : Bindings) (d : DeclId) :
    Walks s (interfaceInfoBy part b d) := by
  refine ⟨fun {w} moment => ?_⟩
  by_cases inside : d ∈ w.interfacesInProgress
  · change Ends s w (if d ∈ w.interfacesInProgress then _ else _) _
    rw [if_pos inside]
    exact .pure trivial
  · have bodies := (Bodiless.bind (.asks (·.interfaceFields d)) fun fields =>
      Bodiless.objectInfoBy hp.bodiless b fields).bodies
        { w with interfacesInProgress := d :: w.interfacesInProgress }
    have properties : Walks s (asks (·.interfaceFields d) >>= objectInfoBy part b) :=
      .bind (asks_walks _) fun _ => objectInfoBy_walks hp b _
    have ends := properties.ends (moment.later
      (Step.inProgress (d :: w.interfacesInProgress)).later)
    rw [Ends, interfaceInfoBy_apply b inside]
    cases ran : (asks (·.interfaceFields d) >>= objectInfoBy part b : Compile Info) s
        { w with interfacesInProgress := d :: w.interfacesInProgress } with
    | ok i w' =>
      rw [ran] at bodies
      exact ⟨.unmark inside (ends.of_ok ran).1 (Prod.mk.inj bodies).1, trivial⟩
    | error e w' =>
      rw [ran] at bodies
      exact ⟨.unmark inside (ends.of_error ran).1 (Prod.mk.inj bodies).1, (ends.of_error ran).2⟩

theorem unionInfoBy_walks (b : Bindings) (members : List TypeId) :
    Walks s (unionInfoBy part b members) := by
  refine .bind (.mapM (fun t => .ite (.pure _) (hp.walks b t)) _) fun infos => ?_
  split
  · exact .pure _
  · exact .pure _
  · exact .bind (shapeOfUnion_walks _ _) fun _ => .pure _

theorem propertyInfoBy_walks (d : DeclId) : Walks s (propertyInfoBy part d) :=
  .bind (asks_walks _) fun _ => .bind program_walks fun _ => .ite (.pure _) (hp.walks _ _)

omit hp in
/-- A chain has a table if one of its classes asks for it. -/
theorem hasTable_ends (moment : Moment s w) (chain : List DeclId) :
    Ends s w (hasTable chain) fun answer _ =>
      (answer ↔ ∃ c ∈ chain, ∃ d, s.program.decl c = .ok d ∧ d.flags.table) := by
  have each (c : DeclId) (w : Work) (_ : Moment s w) :
      Ends s w (do return (← asks (·.decl c)).flags.table : Compile Bool)
        fun flag _ => ∃ d, s.program.decl c = .ok d ∧ flag = d.flags.table :=
    asks_bind fun d known => .pure ⟨d, known, rfl⟩
  refine (Ends.mapM each moment chain).bind fun flags _ _ all => .pure ?_
  clear each
  induction all with
  | nil => simp
  | @cons c flag chain flags one _ ih =>
    obtain ⟨d, known, rfl⟩ := one
    simp [ih, known]

/-- What a property holds is found by going through its type. -/
theorem propertyFound_ends (moment : Moment s w) (d : DeclId) :
    Ends s w (do
      let info ← propertyInfoBy part d
      return ((← asks (·.decl d)).name, d, info) : Compile (Name × DeclId × Info))
      fun prop w' => d = prop.2.1 ∧ PropertyFound s w' w.interfacesInProgress prop := by
  obtain ⟨depth, same⟩ := hp.same
  have alike : propertyInfoBy part d s w = propertyInfoBy (infoAt depth) d s w := by
    simp only [propertyInfoBy, bind_apply, asks_apply]
    cases s.program.property d with
    | error e => rfl
    | ok q =>
      change (if _ then _ else _ : Compile Info) s w = (if _ then _ else _ : Compile Info) s w
      split
      · rfl
      · exact same _ _ w
  refine ((propertyInfoBy_walks hp d).ends moment).ran.bind fun info w' _ ran => ?_
  refine asks_bind fun decl known => .pure ⟨rfl, ⟨decl, known, rfl⟩, depth, w, w',
    moment, rfl, ?_, .same⟩
  exact alike ▸ ran.1

/-- The record of a class is made once. -/
theorem layoutBy_ends (moment : Moment s w) (cls : DeclId) :
    Ends s w (layoutBy part cls) fun layout w' => w'.layouts.get? cls = some layout ∧
      (w.layouts.get? cls = none → layout.MadeAmid s w' w.interfacesInProgress) := by
  refine .get_bind ?_
  split
  · rename_i layout known
    exact .pure ⟨known, by simp [known]⟩
  · rename_i new
    refine asks_bind fun chain isChain => (Since.after (hasTable_ends moment chain)
      (.refl w) ?_).ends
    intro hasTable w₁ there₁ isTable
    refine .asks_bind there₁ fun ids isProps => ?_
    -- lowering the properties may come back to this class, so what counts is that its layout was
    -- not there at the start
    have each (d : DeclId) (w' : Work) (there : Reaches s w₁ w') :
        Ends s w' (do
          let info ← propertyInfoBy part d
          return ((← asks (·.decl d)).name, d, info) : Compile (Name × DeclId × Info))
          fun prop w' => d = prop.2.1 ∧ PropertyFound s w' w.interfacesInProgress prop := by
      rw [← (there₁.trans there).interfaces]
      exact propertyFound_ends hp (moment.later (there₁.trans there).later) d
    refine .after (Ends.mapM_since (fun d _ => each d) fun _ _ _ _ found since =>
      ⟨found.1, found.2.later since.later⟩) there₁ fun props w₂ there₂ all => ?_
    have there := there₁.trans there₂
    refine .after ((declName_walks cls).ends (moment.later there.later)) there
      fun name w₃ there₃ _ => ?_
    refine .after (freshRecord_ends (c := 'c') (by simp) (by decide) (by decide) _)
      (there.trans there₃)
      fun record w₄ there₄ made => ?_
    have arranged : Arranged s w₄ cls ⟨record.2, hasTable, props⟩ := by
      refine ⟨⟨chain, isChain, isTable⟩, ?_, made.2.2⟩
      have same : ids = props.map (·.2.1) := by
        rw [← List.forall₂_eq_eq_eq, List.forall₂_map_right_iff]
        exact all.imp fun _ _ here => here.1
      exact same ▸ isProps
    have isMade : (⟨record.2, hasTable, props⟩ : ClassLayout).MadeAmid s w₄
        w.interfacesInProgress :=
      forall_mem_of_forall₂ all fun _ _ found => found.2.later (there₃.trans there₄).later
    have last := ((there.trans there₃).trans there₄).layout new arranged isMade
    exact ⟨last, by simp, fun _ => isMade.later (Step.layout arranged).later⟩

theorem layoutBy_walks (cls : DeclId) : Walks s (layoutBy part cls) :=
  ⟨fun moment => (layoutBy_ends hp moment cls).mono fun _ _ _ _ => trivial⟩

theorem memberFieldsBy_walks (i : Info) : Walks s (memberFieldsBy part i) := by
  cases i with
  | object shape => exact .bind (objectShape_walks _) fun _ => .pure _
  | intersection shape => exact .bind (intersectionShape_walks _) fun _ => .pure _
  | instanceOf c => exact .bind (layoutBy_walks hp c) fun _ => .pure _
  | _ => exact .pure _

theorem segmentsBy_walks (b : Bindings) (start : Nat) (members : List TypeId) :
    Walks s (segmentsBy part b start members) := by
  induction members generalizing start with
  | nil => exact .pure _
  | cons t rest ih =>
    exact .bind (hp.walks b t) fun _ => .bind (memberFieldsBy_walks hp _) fun _ =>
      .bind program_walks fun _ => .bind (ih _) fun _ => .pure _

theorem intersectionInfoBy_walks (b : Bindings) (members : List TypeId) :
    Walks s (intersectionInfoBy part b members) :=
  .bind (segmentsBy_walks hp b 0 members) fun _ =>
    .bind (shapeOfIntersection_walks _ _) fun _ => .pure _

end Infos

/-- By induction on the depth: the parts of a type are one step less deep. -/
theorem infoAt_walks (depth : Nat) (b : Bindings) (t : TypeId) : Walks s (infoAt depth b t) := by
  induction depth generalizing b t with
  | zero => exact fail_walks trivial
  | succ depth ih =>
    refine .bind program_walks fun p => ?_
    split
    case h_9 => exact interfaceInfoBy_walks ⟨ih, depth, fun _ _ _ => rfl⟩ b _
    case h_10 => exact objectInfoBy_walks ⟨ih, depth, fun _ _ _ => rfl⟩ b _
    case h_11 => exact unionInfoBy_walks ⟨ih, depth, fun _ _ _ => rfl⟩ b _
    case h_12 => exact intersectionInfoBy_walks ⟨ih, depth, fun _ _ _ => rfl⟩ b _
    case h_14 =>
      split
      · exact .pure _
      · exact fail_walks trivial
    all_goals exact .pure _

theorem infoAt_lowers (depth : Nat) : Lowers s (infoAt depth) :=
  ⟨infoAt_walks depth, depth, fun _ _ _ => rfl⟩

theorem infoOf_walks (b : Bindings) (t : TypeId) : Walks s (infoOf b t) :=
  .bind program_walks fun _ => infoAt_walks _ b t

theorem infoOf_apply (b : Bindings) (t : TypeId) (s : Setup) (w : Work) :
    infoOf b t s w = infoAt (typeDepth s.program) b t s w := by
  have here : program s w = .ok s.program w := rfl
  simp only [infoOf, bind_apply, here]

theorem infoOf_lowers : Lowers s infoOf :=
  ⟨infoOf_walks, typeDepth s.program, fun b t w => infoOf_apply b t s w⟩

theorem openInfoOf_walks (t : TypeId) : Walks s (openInfoOf t) :=
  .bind program_walks fun _ => .ite (.pure _) (infoOf_walks _ t)

theorem layoutOf_ends (moment : Moment s w) (cls : DeclId) :
    Ends s w (layoutOf cls) fun layout w' => w'.layouts.get? cls = some layout ∧
      (w.layouts.get? cls = none → layout.MadeAmid s w' w.interfacesInProgress) :=
  layoutBy_ends infoOf_lowers moment cls

theorem layoutOf_walks (cls : DeclId) : Walks s (layoutOf cls) := layoutBy_walks infoOf_lowers cls

theorem memberFields_walks (i : Info) : Walks s (memberFields i) :=
  memberFieldsBy_walks infoOf_lowers i

theorem namedFields_walks (i : Info) : Walks s (namedFields i) := by
  cases i with
  | object shape => exact .bind (objectShape_walks _) fun _ => .pure _
  | intersection shape => exact .bind (intersectionShape_walks _) fun _ => .pure _
  | instanceOf c => exact .bind (layoutOf_walks c) fun _ => .pure _
  | _ => exact .pure _

theorem recordOf_walks (i : Info) : Walks s (recordOf i) := by
  cases i with
  | object shape => exact .bind registry_walks fun _ => .pure _
  | union shape => exact .bind registry_walks fun _ => .pure _
  | intersection shape => exact .bind registry_walks fun _ => .pure _
  | instanceOf c => exact .bind (layoutOf_walks c) fun _ => .pure _
  | _ => exact .pure _

theorem fieldRef_walks (i : Info) (n : Name) : Walks s (fieldRef i n) := by
  unfold fieldRef
  split
  · exact .bind (unionShape_walks _) fun _ => .pure _
  · refine .bind (recordOf_walks _) fun record => ?_
    cases record with
    | none => exact .pure _
    | some record => exact .bind (namedFields_walks _) fun _ => .pure _

/-! ## Functions and globals -/

theorem code_ends {f : Module → α × Module} {Q : α → Work → Prop}
    (there : Reaches s w { w with code := (f w.code).2 })
    (h : Q (f w.code).1 { w with code := (f w.code).2 }) : Ends s w (code f) Q := ⟨there, h⟩

theorem declare_new {m : Module} {name : String} (params : List TyId) (ret : TyId)
    (new : m.functionByName name = none) :
    m.declare name params ret =
      (⟨m.functions.size⟩, { m with functions := m.functions.push ⟨name, params, ret, none⟩ }) := by
  simp [Module.declare, new]

theorem keeps_declare {m : Module} {name : String} (params : List TyId) (ret : TyId)
    (new : m.functionByName name = none) : m.Keeps (m.declare name params ret).2 := by
  intro f fn known
  rw [declare_new params ret new]
  exact getElem?_push_of_some known

/-- A new function has no body and stands behind those that were there. -/
theorem declare_ends {f : Module → FuncId × Module} {name : String} {params : List TyId}
    {ret : TyId} {Q : FuncId → Work → Prop}
    (declares : f w.code = w.code.declare name params ret)
    (new : w.code.functionByName name = none)
    (h : ∀ f w', w'.registry = w.registry → w.code.function? f = none →
      w'.code.function? f = some ⟨name, params, ret, none⟩ → Q f w') :
    Ends s w (code f) Q := by
  refine code_ends ?_ ?_
  · rw [declares]
    exact .of_code (Step.declare name params ret new).later (keeps_declare params ret new)
  · rw [declares, declare_new params ret new]
    exact h _ _ rfl (by simp [Module.function?]) (by simp [Module.function?])

theorem declareCompiled_ends (name : String) (arity : Nat) :
    Ends s w (declareCompiled name arity) fun f w' =>
      w'.registry = w.registry ∧ w.code.function? f = none ∧
        ∃ name, w'.code.function? f = some ⟨name, List.replicate arity .ptr, .ptr, none⟩ := by
  have declared := declare_ends (s := s) (f :=
    (·.declareUnique name (List.replicate arity .ptr) .ptr))
    (Q := fun f w' => w'.registry = w.registry ∧ w.code.function? f = none ∧
      ∃ name, w'.code.function? f = some ⟨name, List.replicate arity .ptr, .ptr, none⟩)
    rfl (Module.functionByName_eq_none_iff.mpr (uniqueName_not_mem _ _)) fun f w' same new there =>
      ⟨same, new, _, there⟩
  exact declared.bind fun f w' _ made => .modify_bind (.compiled f)
    ⟨rfl, rfl, rfl, rfl, rfl⟩ (.pure made)

theorem declareCompiled_walks (name : String) (arity : Nat) :
    Walks s (declareCompiled name arity) :=
  ⟨fun _ => (declareCompiled_ends name arity).mono fun _ _ _ _ => trivial⟩

theorem externalFunction_walks (name : String) (arity : Nat) :
    Walks s (externalFunction name arity) := by
  refine ⟨fun _ => .get_bind ?_⟩
  split
  · refine .get_bind ?_
    split
    · exact .throw trivial
    · exact .pure trivial
  · rename_i new
    exact declare_ends rfl new fun _ _ _ _ _ => trivial

theorem addGlobal_ends {name : String} {ty : TyId} {readonly : Bool} {init : Initial}
    {Q : GlobalId → Work → Prop}
    (h : ∀ g w' full, w'.registry = w.registry → w'.code.types = w.code.types →
      w'.code.global? g = some ⟨full, ty, readonly, some init⟩ → Q g w') :
    Ends s w (code (·.addGlobal name ty readonly init)) Q :=
  .modifyGet (.global _) ⟨rfl, rfl, rfl, rfl, rfl⟩
    (h _ _ (uniqueName w.code.globalNames name) rfl rfl
    (by simp [Module.addGlobal, Module.pushGlobal, Module.global?]))

/-- A global of the name, which may be there already. -/
theorem declareGlobal_ends (w : Work) (name : String) (ty : TyId) (readonly : Bool) :
    Ends s w (code (·.declareGlobal name ty readonly)) fun g w' =>
      ∃ x, w'.code.global? g = some x ∧ x.name = name := by
  have ran : code (·.declareGlobal name ty readonly) s w =
      .ok (w.code.declareGlobal name ty readonly).1
        { w with code := (w.code.declareGlobal name ty readonly).2 } := rfl
  rw [Ends, ran]
  cases known : w.code.globalByName name with
  | some g =>
    have same : w.code.declareGlobal name ty readonly = (g, w.code) := by
      simp [Module.declareGlobal, known]
    rw [same]
    exact ⟨.refl w, Module.globalByName_spec known⟩
  | none =>
    have pushed : w.code.declareGlobal name ty readonly =
        w.code.pushGlobal ⟨name, ty, readonly, none⟩ := by
      simp [Module.declareGlobal, known]
    rw [pushed]
    refine ⟨.of_step (.global _) ⟨rfl, rfl, rfl, rfl, rfl⟩, ⟨name, ty, readonly, none⟩, ?_, rfl⟩
    simp [Module.pushGlobal, Module.global?]

theorem staticGlobal_walks (prop : DeclId) : Walks s (staticGlobal prop) := by
  refine .bind .get fun w => ?_
  split
  · exact .pure _
  · refine .bind (asks_walks _) fun _ => .bind (declName_walks _) fun _ =>
      .bind (declName_walks _) fun _ => .bind ⟨fun _ => addGlobal_ends fun _ _ _ _ _ _ => trivial⟩
        fun g => .bind ⟨fun _ => .modify (.static prop g) ⟨rfl, rfl, rfl, rfl, rfl⟩ trivial⟩
          fun _ => .pure _

theorem syntheticEnv_ends (moment : Moment s w) (params : Nat) :
    Ends s w (syntheticEnv params) fun env w' =>
      ∃ e, w'.registry.env? env = some e ∧ e.paramCount = params := by
  refine .get_bind ?_
  split
  · rename_i env known
    exact .pure (moment.synthetic_count params env known)
  · refine ((literal_walks _).ends moment).bind fun record w₁ _ _ => ?_
    refine Ends.bind (Q := fun env w₂ =>
      w₂.registry.env? env = some (.synthesized params record))
      (.modifyGet (.synthesized params record) ⟨rfl, rfl, rfl, rfl, rfl⟩
        (by simp [Registry.addEnv, Registry.env?])) fun env w₂ _ known => ?_
    refine Ends.bind (Q := fun _ w₃ =>
      w₃.registry.env? env = some (.synthesized params record))
      (.modify (.synthetic known) ⟨rfl, rfl, rfl, rfl, rfl⟩ known) fun _ w₃ _ known => ?_
    exact .pure ⟨_, known, rfl⟩

theorem syntheticEnv_walks (params : Nat) : Walks s (syntheticEnv params) :=
  ⟨fun moment => (syntheticEnv_ends moment params).mono fun _ _ _ _ => trivial⟩

/-! ## Which body a call needs -/

theorem formals_walks (subject : Subject) : Walks s (formals subject) := by
  cases subject with
  | function d => exact .bind (asks_walks _) fun _ => .pure _
  | implicitConstructor c => exact .bind (asks_walks _) fun _ => .pure _

theorem paramInfos_walks (b : Bindings) (params : List DeclId) (args : List Info) :
    Walks s (paramInfos b params args) := by
  induction params generalizing args with
  | nil => exact .pure _
  | cons d rest ih =>
    exact .bind (asks_walks _) fun _ => .bind (infoOf_walks b _) fun _ => .bind (ih _) fun _ =>
      .pure _

/-- The key is that of the body asked for. -/
theorem specialize_ends (moment : Moment s w) (subject : Subject) (cls : Option DeclId)
    (args : List Info) : Ends s w (specialize subject cls args) fun spec _ =>
      spec.key.subject = subject ∧ spec.key.receiverClass = cls ∧
        spec.key.bindings = spec.bindings.chainKey := by
  refine .program_bind (((siteOf_walks _).ends moment).bind fun site w₁ there₁ _ => ?_)
  have moment₁ := moment.later there₁.later
  refine ((formals_walks subject).ends moment₁).bind fun formals w₂ there₂ _ => ?_
  have moment₂ := moment₁.later there₂.later
  refine ((ask_walks _).ends moment₂).bind fun bindings w₃ there₃ _ => ?_
  split
  · exact .throw trivial
  · exact ((paramInfos_walks _ _ _).ends (moment₂.later there₃.later)).bind fun _ _ _ _ =>
      .pure ⟨rfl, rfl, rfl⟩

/-! ## Environments -/

theorem envPlan_bind {owner : DeclId} {f : EnvPlan → Compile α} {Q : α → Work → Prop}
    (h : ∀ plan, EnvPlan.For s.program owner plan → Ends s w (f plan) Q) :
    Ends s w (envPlan owner >>= f) Q := by
  simp only [envPlan, bind_assoc]
  refine asks_bind fun d known => ?_
  cases kind : d.kind with
  | classDecl c =>
    simp only [bind_assoc, pure_bind]
    exact asks_bind fun params forwarded => h _ (.constructor forwarded)
  | function fn =>
    simp only [pure_bind]
    refine h _ (.function ?_)
    simp [Program.function, known, kind, Bind.bind, Except.bind, Pure.pure, Except.pure]
  | _ => exact ⟨.refl w, .bare trivial⟩

theorem paramSlot_ends (moment : Moment s w) (d : DeclId) :
    Ends s w (paramSlot d) fun slot _ => slot.OfParam s.program d := by
  refine asks_bind fun q _ => ((openInfoOf_walks _).ends moment).bind fun info w' _ _ => ?_
  exact asks_bind fun decl known => .pure ⟨rfl, rfl, decl, known, rfl⟩

/-- What is captured was gathered from the body's own references. -/
theorem capturesOf_bind (moment : Moment s w) {owner : DeclId} {site : Site} {plan : EnvPlan}
    {f : Gathered → Compile α} {Q : α → Work → Prop}
    (h : ∀ (survey : Survey) found, s.program.freeNames plan.subject = .ok survey.free →
      survey.gather owner (plan.receiverClass site) = .ok found →
      (∀ c ∈ found.captures, s.program.Refers c.name) → Ends s w (f found) Q) :
    Ends s w (capturesOf owner site plan >>= f) Q := by
  simp only [capturesOf, bind_assoc]
  refine asks_bind fun free known => .program_bind (.get_bind ?_)
  have refers := Survey.gather_refers ⟨s.program, w, site, free⟩ owner
    (plan.receiverClass site) known
    moment.env_refers
  split
  · rename_i found gathered
    rw [gathered] at refers
    exact h _ found known gathered refers
  · rename_i cause gathered
    rw [gathered] at refers
    exact .bind (Q := fun _ _ => False) (.throw refers) fun _ _ _ never => never.elim

theorem addEnv_ends {e : Environment} (laid : LaidOut s w e) :
    Ends s w (addEnv e) fun id w' => w'.registry.env? id = some e :=
  .modifyGet (.environment laid) ⟨rfl, rfl, rfl, rfl, rfl⟩
    (by simp [Registry.addEnv, Registry.env?])

/-- The association of a declaration with an environment of its own. -/
theorem bindDeclEnv_ends {owner : DeclId} {id : EnvId} {e : Environment}
    (known : w.registry.env? id = some e) (owned : e.owner = some owner) :
    Ends s w (register (·.bindDeclEnv owner id)) fun _ w' =>
      w'.registry.declEnv? owner = some id := by
  refine .registry_bind ?_
  cases bound : w.registry.declEnv? owner with
  | none =>
    simp only [Registry.bindDeclEnv, bound]
    exact .modify (.bindDecl known owned bound) ⟨rfl, rfl, rfl, rfl, rfl⟩
      (by simp [Registry.declEnv?])
  | some old =>
    by_cases same : old = id
    · simp only [Registry.bindDeclEnv, bound, same, if_true]
      exact ⟨.refl w, by simpa [same] using bound⟩
    · simp only [Registry.bindDeclEnv, bound, same, if_false]
      exact .throw trivial

theorem layOut_ends (moment : Moment s w) (owner : DeclId) :
    Ends s w (layOut owner) fun id w' => w'.registry.declEnv? owner = some id := by
  refine siteOf_bind fun site isSite => envPlan_bind fun plan planned => ?_
  refine capturesOf_bind moment fun survey found free gathered refers => ?_
  have outer : ∀ id, site.outer = some id → (w.registry.env? id).isSome := by
    obtain ⟨d, recorded⟩ := siteOf_recorded isSite
    exact moment.outer_known d site recorded
  refine (Ends.mapM (fun d w moment => paramSlot_ends moment d) moment plan.params).bind ?_
  intro params w₁ there₁ formals
  refine .registry_bind ?_
  dsimp only
  refine .program_bind ((freshRecord_ends (c := 'e') (by simp) (by decide) (by decide) _).bind
    fun record w₂ there₂ made => ?_)
  obtain ⟨sameRegistry, _, fields⟩ := made
  have laid : LaidOut s w₂ _ := .mk record.1 record.2 planned free gathered formals
    (fun id here => (there₁.trans there₂).later.env_isSome (outer id here)) rfl
    (by simpa [Site.around, sameRegistry] using fields) refers
  rw [show site.around w₂.registry =
    (site.outer.bind w₁.registry.env?).elim [] Environment.indexedSlots by
      rw [sameRegistry, Site.around]] at laid
  refine (addEnv_ends laid).bind fun id w₃ _ known => ?_
  exact (bindDeclEnv_ends known rfl).bind fun _ _ _ bound => .pure bound

/-- The environment of a declaration is laid out once. -/
theorem environmentOf_ends (moment : Moment s w) (owner : DeclId) :
    Ends s w (environmentOf owner) fun id w' => w'.registry.declEnv? owner = some id := by
  refine .registry_bind ?_
  split
  · rename_i id known
    exact .pure known
  · exact layOut_ends moment owner

theorem environmentOf_walks (owner : DeclId) : Walks s (environmentOf owner) :=
  ⟨fun moment => (environmentOf_ends moment owner).mono fun _ _ _ _ => trivial⟩

end Compile

end ShapeCompiler
