import ShapeCompiler.Proofs.ClosureRecords
import ShapeCompiler.Proofs.Constructors

/-!
# Instances of classes without constructors

No class from the one that is named up to the topmost one declares a constructor, and their
properties hold numbers, texts or truth values and start with literals if at all.

* `Program.PlainChain`: these classes;
* `ClassLayout.Suits`: each of their properties has a field, which takes the literal;
* `PlainChain.constructs`: what calls of their constructors give an instance;
* `Emit.construct_passes`: what a new instance holds once it is made;
* `Emit.initializeStatics_boxes`: literals of static properties are put into boxes in order.
-/

namespace ShapeCompiler

open Source Code Work Machine

/-! ## Properties of numbers, texts and truth values -/

namespace Source.Program

variable {p : Program} {cls owner m : DeclId} {chain : List DeclId} {d : Decl} {i : Info}
  {ms : List (DeclId × Decl)}

/-- The property holds values of this kind, and its start value is a literal of the kind, if it has
one. -/
def HoldsPlainly (p : Program) (m : DeclId) (i : Info) : Prop :=
  ∃ q, p.property m = .ok q ∧ p.scalarInfo? q.ty = some i ∧
    ∀ e, q.init = some e → ∃ v, p.literal? e = some (i, v)

theorem property_of_start {static : Bool} {e : ExprId} (start : d.start? static = some e) :
    ∃ q, d.kind = .property q ∧ d.flags.static = static ∧ q.init = some e := by
  unfold Decl.start? at start
  split at start
  · rename_i q isKind
    split at start
    · rename_i isStatic
      exact ⟨q, isKind, isStatic, start⟩
    · cases start
  · cases start

theorem isInstanceProperty_of_start {e : ExprId} (start : d.start? false = some e) :
    isInstanceProperty d := by
  obtain ⟨q, isKind, isStatic, -⟩ := property_of_start start
  simp [isInstanceProperty, isKind, isStatic]

theorem HoldsPlainly.literal {static : Bool} {e : ExprId} (h : p.HoldsPlainly m i)
    (isDecl : p.decl m = .ok d) (start : d.start? static = some e) :
    ∃ v, p.literal? e = some (i, v) := by
  obtain ⟨q, isProperty, -, literal⟩ := h
  obtain ⟨q', isKind, -, isStart⟩ := property_of_start start
  obtain rfl : q' = q := by
    simp only [Program.property, isDecl, Bind.bind, Except.bind, isKind] at isProperty
    exact Except.ok.inj isProperty
  exact literal e isStart

/-- The classes from `cls` up to one without a base: none of them declares a constructor or is
supplied from outside, and the properties of their instances hold numbers, texts or truth values,
those of one name the same. -/
structure PlainChain (p : Program) (cls : DeclId) (chain : List DeclId) : Prop where
  lineage : p.Lineage (some cls) chain
  undeclared : ∀ c ∈ chain, p.constructorOf c = .ok none
  isOwn : ∀ c ∈ chain, ∀ d, p.decl c = .ok d → d.flags.ambient = false
  plain : ∃ kind : Name → Info, ∀ c ∈ chain, ∀ ms, p.members c = .ok ms → ∀ m d, (m, d) ∈ ms →
    isInstanceProperty d → p.HoldsPlainly m (kind d.name)

theorem nearestConstructorParams_none (undeclared : ∀ c ∈ chain, p.constructorOf c = .ok none) :
    p.nearestConstructorParams chain = .ok [] := by
  induction chain with
  | nil => rfl
  | cons c rest ih =>
    obtain ⟨here, further⟩ := List.forall_mem_cons.mp undeclared
    simp only [nearestConstructorParams, here]
    exact ih further

theorem members_of_constructorOf {found : Option DeclId} (h : p.constructorOf cls = .ok found) :
    ∃ ms, p.members cls = .ok ms := by
  obtain ⟨functions, areFunctions, -⟩ := exists_of_bind_ok h
  obtain ⟨ms, areMembers, -⟩ := exists_of_bind_ok areFunctions
  exact ⟨ms, areMembers⟩

/-- The classes from a base on are such a chain. -/
theorem PlainChain.further {base : DeclId} {above : List DeclId} (h : p.PlainChain cls chain)
    (lineage : p.Lineage (some base) above) (among : ∀ c ∈ above, c ∈ chain) :
    p.PlainChain base above := by
  obtain ⟨kind, plain⟩ := h.plain
  exact ⟨lineage, fun c there => h.undeclared c (among c there), fun c there =>
    h.isOwn c (among c there),
    kind, fun c there => plain c (among c there)⟩

theorem PlainChain.implicit (h : p.PlainChain cls chain) : p.ConstructsImplicitly cls := by
  have first : cls ∈ chain := by
    cases h.lineage
    exact List.mem_cons_self
  refine ⟨h.undeclared cls first, ?_, h.lineage.isClass cls first, h.isOwn cls first⟩
  simp only [forwardedParams, h.lineage.classChain]
  exact nearestConstructorParams_none h.undeclared

/-- Whether the property holds values of this kind, and starts with a literal of the kind if at
all. -/
def holdsPlainly (p : Program) (m : DeclId) (i : Info) : Bool :=
  (p.property m).toOption.any fun q =>
    p.scalarInfo? q.ty = some i && q.init.all fun e => (p.literal? e).any (·.1 = i)

theorem of_holdsPlainly (h : p.holdsPlainly m i) : p.HoldsPlainly m i := by
  obtain ⟨q, isProperty, h⟩ := (Option.any_eq_true _ _).mp h
  obtain ⟨scalar, starts⟩ := Bool.and_eq_true_iff.mp h
  refine ⟨q, toOption_eq_some_iff.mp isProperty, of_decide_eq_true scalar, fun e isStart => ?_⟩
  rw [isStart, Option.all_some] at starts
  obtain ⟨⟨_, v⟩, literal, same⟩ := (Option.any_eq_true _ _).mp starts
  obtain rfl := of_decide_eq_true same
  exact ⟨v, literal⟩

/-- Whether these are the classes up to one without a base, all as they are to be. -/
def plainChain (p : Program) (kind : Name → Info) (cls : DeclId) (chain : List DeclId) : Bool :=
  (p.classChain cls).toOption = some chain && p.endsAtTop chain && chain.all fun c =>
    (p.constructorOf c).toOption = some none && (p.decl c).toOption.all (!·.flags.ambient) &&
      (p.members c).toOption.all
        (·.all fun m => !isInstanceProperty m.2 || p.holdsPlainly m.1 (kind m.2.name))

theorem of_plainChain (kind : Name → Info) (h : p.plainChain kind cls chain) :
    p.PlainChain cls chain := by
  simp only [plainChain, Bool.and_eq_true, decide_eq_true_eq, List.all_eq_true,
    toOption_eq_some_iff] at h
  obtain ⟨⟨isChain, ends⟩, each⟩ := h
  refine ⟨lineage_of_classChain isChain (endsAtTop_iff.mp ends), fun c inside =>
    (each c inside).1.1,
    fun c inside d isDecl => ?_, kind, fun c inside ms areMembers m d isMember isProperty => ?_⟩
  · have isOwn := (each c inside).1.2
    rw [isDecl] at isOwn
    simpa [Except.toOption] using isOwn
  · have holds := (each c inside).2
    rw [areMembers] at holds
    have holds := List.all_eq_true.mp holds (m, d) isMember
    rw [isProperty] at holds
    exact of_holdsPlainly holds

/-- The properties of the instances are those of the classes of the chain. -/
theorem mem_instanceProperties {props : List DeclId} (isChain : p.classChain cls = .ok chain)
    (h : p.instanceProperties cls = .ok props) : m ∈ props ↔
      ∃ c ∈ chain, ∃ ms d, p.members c = .ok ms ∧ (m, d) ∈ ms ∧ isInstanceProperty d := by
  obtain ⟨_, asked, h⟩ := exists_of_bind_ok h
  cases isChain.symm.trans asked
  obtain ⟨groups, areGroups, h⟩ := exists_of_bind_ok h
  cases h
  constructor
  · intro inside
    obtain ⟨⟨_, d⟩, among, rfl⟩ := List.mem_map.mp inside
    obtain ⟨among, isProperty⟩ := List.mem_filter.mp among
    obtain ⟨ms, isGroup, among⟩ := List.mem_flatten.mp among
    obtain ⟨c, isOne, areMembers⟩ := exists_of_mapM_ok areGroups isGroup
    exact ⟨c, List.mem_reverse.mp isOne, ms, d, areMembers, among, isProperty⟩
  · rintro ⟨c, isOne, ms, d, areMembers, among, isProperty⟩
    obtain ⟨ms', isGroup, same⟩ := made_of_mapM_ok areGroups (List.mem_reverse.mpr isOne)
    cases areMembers.symm.trans same
    exact List.mem_map.mpr ⟨(m, d), List.mem_filter.mpr
      ⟨List.mem_flatten.mpr ⟨ms, isGroup, among⟩, isProperty⟩, rfl⟩

/-! ### What is known of them -/

theorem of_scalarInfo? {t : TypeId} (scalar : p.scalarInfo? t = some i) :
    p.types.get t = .number ∧ i = .number ∨ p.types.get t = .text ∧ i = .text ∨
      p.types.get t = .boolean ∧ i = .boolean := by
  unfold scalarInfo? at scalar
  split at scalar <;> cases scalar <;> simp [*]

theorem closed_of_scalarInfo? {t : TypeId} (scalar : p.scalarInfo? t = some i) :
    p.types.mentionsParam t = false := by
  rcases of_scalarInfo? scalar with ⟨isType, -⟩ | ⟨isType, -⟩ | ⟨isType, -⟩ <;>
    simp [TypeStore.mentionsParam, TypeStore.mentionsParamAt, isType]

end Source.Program

/-- A number, text or truth value is known to be one. -/
theorem Compile.infoAt_scalar {s : Setup} {w w' : Work} {b : Bindings} {t : TypeId} {i i' : Info}
    {depth : Nat} (scalar : s.program.scalarInfo? t = some i)
    (ran : infoAt depth b t s w = .ok i' w') : i' = i ∧ w' = w := by
  cases depth with
  | zero => cases ran
  | succ depth =>
    obtain ⟨_, _, asked, ran⟩ := of_bind_ok ran
    cases asked
    rcases Program.of_scalarInfo? scalar with ⟨isType, rfl⟩ | ⟨isType, rfl⟩ | ⟨isType, rfl⟩ <;>
      rw [isType] at ran <;> cases ran <;> exact ⟨rfl, rfl⟩

theorem PropertyFound.plain {s : Setup} {w : Work} {busy : List DeclId}
    {prop : Name × DeclId × Info}
    {i : Info} (h : PropertyFound s w busy prop) (plain : s.program.HoldsPlainly prop.2.1 i) :
    prop.2.2 = i := by
  obtain ⟨depth, w₀, w₁, -, -, ran, -⟩ := h.info
  obtain ⟨q, isProperty, scalar, -⟩ := plain
  obtain ⟨q', _, asked, ran⟩ := Compile.of_bind_ok ran
  obtain ⟨rfl, isProperty'⟩ := Compile.of_asks_ok asked
  cases isProperty.symm.trans isProperty'
  obtain ⟨_, _, asked, ran⟩ := Compile.of_bind_ok ran
  cases asked
  rw [Program.closed_of_scalarInfo? scalar] at ran
  exact (Compile.infoAt_scalar scalar ran).1

/-! ## Their fields -/

/-- Each property of the instances has a field, and the layout takes its start value. -/
structure ClassLayout.Suits (p : Program) (layout : ClassLayout) (chain : List DeclId) : Prop where
  takes : ∀ c ∈ chain, ∀ ms, p.members c = .ok ms → ∀ m d e, (m, d) ∈ ms → d.start? false = some e →
    ∃ v, layout.Takes p (layout.props.length + layout.offset) d e v
  field : ∀ c ∈ chain, ∀ ms, p.members c = .ok ms → ∀ m d, (m, d) ∈ ms →
    Program.isInstanceProperty d → ∃ k i, layout.field? d.name = some (k, i)

theorem Arranged.suits {s : Setup} {w : Work} {busy : List DeclId} {cls : DeclId}
    {chain : List DeclId}
    {layout : ClassLayout} (h : Arranged s w cls layout) (made : layout.MadeAmid s w busy)
    (plain : s.program.PlainChain cls chain) : layout.Suits s.program chain := by
  obtain ⟨kind, areKinds⟩ := plain.plain
  have among {m : DeclId} := Program.mem_instanceProperties
    (m := m) plain.lineage.classChain h.props
  have known (prop : Name × DeclId × Info) (inside : prop ∈ layout.props) :
      prop.2.2 = kind prop.1 := by
    obtain ⟨c, isOne, ms, d, areMembers, isMember, isProperty⟩ :=
      among.mp (List.mem_map.mpr ⟨prop, inside, rfl⟩)
    obtain ⟨d', isDecl, isName⟩ := (made prop inside).name
    obtain ⟨_, _, _, declared⟩ := Program.classDecl_of_members areMembers
    cases isDecl.symm.trans (declared _ _ isMember)
    rw [isName]
    exact (made prop inside).plain (areKinds c isOne ms areMembers _ _ isMember isProperty)
  refine ⟨fun c isOne ms areMembers m d e isMember start => ?_,
    fun c isOne ms areMembers m d isMember isProperty => ?_⟩
  · obtain ⟨_, _, _, declared⟩ := Program.classDecl_of_members areMembers
    obtain ⟨v, literal⟩ := (areKinds c isOne ms areMembers m d isMember
      (Program.isInstanceProperty_of_start start)).literal (declared m d isMember) start
    refine ⟨v, ⟨_, literal⟩, fun k i field => ?_⟩
    obtain ⟨j, prop, first, here, rfl, rfl⟩ := ClassLayout.field?_eq_some_iff.mp field
    obtain ⟨inside, isName, -⟩ := List.findIdx?_eq_some_iff_getElem.mp first
    obtain ⟨-, rfl⟩ := List.getElem?_eq_some_iff.mp here
    rw [known _ (List.getElem_mem inside), of_decide_eq_true isName]
    exact ⟨by omega, literal⟩
  · obtain ⟨prop, inside, rfl⟩ :=
      List.mem_map.mp (among.mpr ⟨c, isOne, ms, d, areMembers, isMember, isProperty⟩)
    obtain ⟨d', isDecl, isName⟩ := (made prop inside).name
    obtain ⟨_, _, _, declared⟩ := Program.classDecl_of_members areMembers
    cases isDecl.symm.trans (declared _ _ isMember)
    cases first : layout.props.findIdx? (·.1 = d.name) with
    | none => simpa [isName] using List.findIdx?_eq_none_iff.mp first prop inside
    | some j =>
      have inside := (List.findIdx?_eq_some_iff_getElem.mp first).1
      exact ⟨_, _, ClassLayout.field?_eq_some_iff.mpr
        ⟨j, _, first, List.getElem?_eq_getElem inside, rfl, rfl⟩⟩

/-! ## Their constructors -/

section

variable {s : Setup} {im : Image} {fin : Work} {layout : ClassLayout} {cls owner : DeclId}
  {all chain : List DeclId}

/-- Calls of the constructor of a class of the chain give an instance the start values of the
classes from the topmost one down to this class. -/
theorem Source.Program.PlainChain.constructs (plain : s.program.PlainChain owner chain)
    (complete : fin.Complete s im) (laidOut : fin.layouts.get? cls = some layout)
    (suits : layout.Suits s.program all) (among : ∀ c ∈ chain, c ∈ all) :
    Constructs fin im layout (layout.props.length + layout.offset) cls owner
      (chain.reverse.flatMap (s.program.startsOf false)) := by
  induction chain generalizing owner with
  | nil => cases plain.lineage
  | cons c rest ih =>
    have implicit := plain.implicit
    have lineage := plain.lineage
    obtain ⟨ms, areMembers⟩ := Program.members_of_constructorOf implicit.undeclared
    cases lineage with
    | @cons _ decl _ isClass further =>
      have starts : ((c :: rest).reverse.flatMap (s.program.startsOf false)) =
          rest.reverse.flatMap (s.program.startsOf false) ++ s.program.startsAmong false ms := by
        simp [Program.startsOf, areMembers, Except.toOption]
      rw [starts]
      refine .next complete laidOut isClass implicit.noParams areMembers
        (suits.takes c (among c List.mem_cons_self) ms areMembers)
        (fun isTop => ?_) fun base isBase => ?_
      · rw [isTop] at further
        cases further
        rfl
      · rw [isBase] at further
        have above := plain.further further fun c there => List.mem_cons_of_mem _ there
        exact ⟨above.implicit, ih above fun c there => among c (List.mem_cons_of_mem _ there)⟩

end

/-! ## Tables -/

namespace Emit

variable {s : Setup} {l : Lowering} {x : Stage} {im : Image} {fin w : Work} {cls : DeclId}
  {obj : ValueId} {o : Nat} {f : Frame}

/-- At the top, a new instance gets its table in its first field, and nothing else changes that was
there. -/
theorem installTable_arranges {first : Value} {rest : List Value} (hl : l.Walks s)
    (standard : s.runtime = startModule.1) (own :
    ∀ root, s.resolver.tableSymbol s.program root = none)
    (moment : Moment s x.work) (atTop : x.frame.env = none) (isObj : x.Knows obj (address o))
    (object : x.memory.heap[o]? = some (.agg (first :: rest))) (upholds : x.memory.Upholds fin.code)
    (ran : installTable l obj cls x.frame s x.work = .ok ((), f) w) (later : Later s w fin) :
    ∃ x' : Stage, x'.frame = f ∧ x'.work = w ∧ x.Goes s x' ∧ x.memory.Arranges [o] x'.memory ∧
      ∃ first', x'.memory.heap[o]? = some (.agg (first' :: rest)) := by
  have grounded : x.frame.Grounded x.work := by
    rw [Frame.Grounded, atTop]
    exact fun e h => by cases h
  obtain ⟨found, _, _, asked, ran₁⟩ := of_bind_ok ran
  obtain ⟨rfl, rfl, answer⟩ := of_asks_ok asked
  cases found with
  | none =>
    cases ran₁
    exact ⟨x, rfl, rfl, .refl x, .refl _ _, first, object⟩
  | some root =>
    obtain ⟨t, overrides, w₁, there₁, rfl, made, -, overriding, placed⟩ :=
      installTable_places hl moment grounded answer ran
    obtain ⟨-, inTable⟩ := overriding.inTable
    have later₁ : Later s w₁ w := (((placeTable_walks hl overriding obj).ends
      (moment.later there₁.later) (grounded.later there₁.later)).of_ok placed).1.later
    -- the table is in the module, and still as it is there
    have isOwn : t.external = false := by
      rw [overriding.fits.external, own]
      rfl
    obtain ⟨functions, holds⟩ := (((later₁.trans later).made made).own isOwn).functions
    obtain ⟨name, known⟩ := holds.global
    replace known : fin.code.globals[t.global.raw]? = _ := known
    have isCell : (Memory.ofModule fin.code).globals[t.global.raw]? = some ⟨name,
        initialValue fin.code.types t.array (Compile.tableInitial t.header t.length functions),
            true⟩ := by
      simp [Memory.ofModule, known]
    obtain ⟨v, there, same⟩ := upholds _ _ isCell
    rw [same rfl, ← isCell] at there
    obtain ⟨⟨c, isCell, isAgg⟩, length, written⟩ := holds.filled overriding.fits there
    have step : x.Goes s (x.later w₁) := ⟨there₁, rfl, .refl _⟩
    have called : (x.later w₁).CalledWith 0 := fun current here => by
      cases atTop.symm.trans here
    have noEnv : (x.later w₁).frame.env.isSome → 0 ≠ o := by
      rw [show (x.later w₁).frame.env = none from atTop]
      exact fun h => by cases h
    obtain ⟨x', isFrame, isWork, goes, installed⟩ := placeTable_does (x := x.later w₁) standard hl
      (moment.later there₁.later) overriding inTable called noEnv
      (step.knows isObj) object isCell isAgg length written _ _ _ placed
    refine ⟨x', isFrame, isWork, step.trans goes, ?_⟩
    cases installed with
    | shared none memory =>
      rw [memory]
      exact ⟨Memory.arranges_put object _, _, Memory.heap_put (Memory.lt_of_heap object) _⟩
    | own some new keeps object table => exact ⟨keeps, _, object⟩

end Emit

/-! ## New instances -/

/-- The field `k` of the instance in the allocation `o` leads to a box with this value, or to
nothing if there is none. -/
def Machine.Memory.HasStart (mem : Memory) (o k : Nat) : Option Value → Prop
  | some v => ∃ b, mem.load (element o k) = .ok (address b) ∧ mem.load (address b) = .ok v
  | none => mem.load (element o k) = .ok .null

theorem Initialized.hasStart {layout : ClassLayout} {o k : Nat} {starts : List (Name × Value)}
    {m m' : Memory} {items items' : List Value} {n : Name} {i : Info}
    (h : Initialized layout o starts m items m' items') (written : ∀ v ∈ starts, v.2 ≠ .undef)
    (field : layout.field? n = some (k, i)) (empty : items[k]? = some .null) :
    m'.HasStart o k (starts.reverse.lookup n) := by
  cases last : starts.reverse.lookup n with
  | none => exact Memory.load_heap h.object ((h.others n k i field last).trans empty) nofun
  | some v =>
    obtain ⟨b, item, cell, -⟩ := h.started n k i v field last
    have listed : (n, v) ∈ starts := by
      obtain ⟨before, after, parts, -⟩ := List.lookup_eq_some_iff.mp last
      exact List.mem_reverse.mp (parts ▸ by simp)
    exact ⟨b, Memory.load_heap h.object item nofun, Memory.load_cell cell (written _ listed)⟩

namespace Emit

variable {s : Setup} {x : Stage} {im : Image} {fin w : Work} {cls : DeclId} {layout : ClassLayout}
  {starts : List (Name × Value)} {depth : Nat} {op : Operand} {f : Frame} {g : Sketch}

/-- The constructor runs on an instance whose properties hold nothing yet. -/
theorem runConstructor_starts {obj : ValueId} {o : Nat} (front : List Value)
    (complete : fin.Complete s im)
    (implicit : s.program.ConstructsImplicitly cls)
    (constructs : Constructs fin im layout (layout.props.length + layout.offset) cls cls starts)
    (written : ∀ v ∈ starts, v.2 ≠ .undef) (sound : x.work.Sound s) (defines : x.Defines)
    (atTop : x.frame.env = none) (isObj : x.Knows obj (address o))
    (object : x.memory.heap[o]? = some (.agg (front ++ List.replicate layout.props.length .null)))
    (long : front.length = layout.offset)
    (ran : (do
      runConstructor (.ofDepth depth) cls cls obj []
      return .boxed obj (.instanceOf cls) : Emit Operand) x.frame s x.work = .ok (op, f) w)
    (before : w.Before s fin) : ∃ x' : Stage, x'.frame = f ∧ x'.work = w ∧ x.Passes im x' ∧
      x'.memory.boxes = x.memory.boxes ++ starts.map (·.2) ∧
      ∀ n k i, layout.field? n = some (k, i) →
      x'.memory.HasStart o k (starts.reverse.lookup n) := by
  obtain ⟨_, f', w', ran, last⟩ := of_bind_ok ran
  cases last
  have grounded : x.frame.Grounded x.work := by
    rw [Frame.Grounded, atTop]
    nofun
  have called : x.CalledWith 0 := fun current here => by
    cases atTop.symm.trans here
  obtain ⟨-, x', isFrame, isWork, passes, items, made⟩ :=
    runConstructor_passes complete implicit constructs
    sound grounded called defines isObj object (by simp [long, Nat.add_comm]) ran before
  refine ⟨x', isFrame, isWork, passes, made.boxes, fun n k i field =>
    made.hasStart written field ?_⟩
  obtain ⟨j, prop, -, here, rfl, -⟩ := ClassLayout.field?_eq_some_iff.mp field
  have inside := (List.getElem?_eq_some_iff.mp here).1
  rw [List.getElem?_append_right (by omega), long, Nat.add_sub_cancel,
    List.getElem?_replicate_of_lt inside]

/-- At the top, a new instance is made: its fields hold the start values. -/
theorem construct_passes (complete : fin.Complete s im)
    (own : ∀ root, s.resolver.tableSymbol s.program root = none)
    (implicit : s.program.ConstructsImplicitly cls)
    (constructs : ∀ layout, fin.layouts.get? cls = some layout →
      Constructs fin im layout (layout.props.length + layout.offset) cls cls starts)
    (written : ∀ v ∈ starts, v.2 ≠ .undef) (stands : x.frame.Stands s x.work g)
    (defines : x.Defines) (atTop : x.frame.env = none) (upholds : x.memory.Upholds fin.code)
    (ran : construct (.ofDepth depth) cls [] x.frame s x.work = .ok (op, f) w)
    (before : w.Before s fin) : ∃ (layout : ClassLayout) (x' : Stage),
      fin.layouts.get? cls = some layout ∧ x'.frame = f ∧ x'.work = w ∧ x.Passes im x' ∧
      x'.memory.boxes = x.memory.boxes ++ starts.map (·.2) ∧
      ∀ n k i, layout.field? n = some (k, i) →
        x'.memory.HasStart x.memory.heap.size k (starts.reverse.lookup n) := by
  have hl : (Lowering.ofDepth depth).Sound s := Lowering.ofDepth_sound depth
  obtain ⟨layout, _, w₁, asked, ran⟩ := of_bind_ok ran
  obtain ⟨g₁, sound₁, -⟩ := (Sound.quiet (U := fun _ => False) (Compile.layoutOf_walks cls)
    (Compile.layoutOf_quiet cls)).goes stands (by simp) asked
  have stands₁ := sound₁.stands stands
  obtain ⟨rfl, found⟩ := of_lift_ok asked
  obtain ⟨there₁, known, -⟩ := (Compile.layoutOf_ends stands.sound.moment cls).of_ok found
  have arranged : Arranged s w₁ cls layout := stands₁.sound.moment.layout_made cls layout known
  obtain ⟨obj, f₂, w₂, alloc, ran⟩ := of_bind_ok ran
  obtain ⟨g₂, sound₂, has⟩ := (Sound.write (U := fun _ => False) (.alloc _ _)).goes
    stands₁ (by simp) alloc
  have stands₂ := sound₂.stands stands₁
  have step₁ : x.Goes s (x.later w₁) := ⟨there₁, rfl, .refl _⟩
  -- the object is new, and all its fields are null
  have allocated : Does s (x.later w₁) (liftM (Draft.alloc layout.record "new")) fun a x' =>
      x'.work = w₁ ∧ x'.Knows a (address x.memory.heap.size) ∧
      x'.memory = x.memory.push (.agg (List.replicate
          (layout.props.length + layout.offset) .null)) := by
    refine .write (.alloc "new" fun types admitted => zeroValue_record
      (stands₁.sound.moment.get_ptr admitted) (TypeTable.fields?_of_grows admitted arranged.fields))
        ?_
    rintro a p - ⟨isPtr, memory, -⟩
    exact ⟨rfl, isPtr, memory⟩
  obtain ⟨x₂, rfl, rfl, goes₂, work₂, isObj, memory₂⟩ := allocated _ _ _ alloc
  have goes₂ := step₁.trans goes₂
  have new : x.memory.Arranges [] x₂.memory := memory₂ ▸ Memory.arranges_push _ _
  have object₂ : x₂.memory.heap[x.memory.heap.size]? =
      some (.agg (List.replicate (layout.props.length + layout.offset) .null)) :=
    memory₂ ▸ Memory.heap_push _ _
  have top : x₂.frame.env = none := goes₂.env.trans atTop
  have tail : Sound s (fun v => v = obj) (do
      runConstructor (.ofDepth depth) cls cls obj []
      return .boxed obj (.instanceOf cls) : Emit Operand) fun _ => [] := by
    have runs : Sound s (fun v => v = obj) (runConstructor (.ofDepth depth) cls cls obj []) fun _ =>
        [] :=
      runConstructor_sound hl cls cls rfl (by simp)
    exact runs.andThen fun _ => .pure (by simp)
  have laidOut (proceeds : Proceeds s x₂.work w) : fin.layouts.get? cls = some layout :=
    before.keeps.layouts _ _ (proceeds.keeps.layouts _ _ (work₂ ▸ known))
  dsimp only at ran
  split at ran
  · rename_i hasTable
    have offset : layout.offset = 1 := by simp [ClassLayout.offset, hasTable]
    obtain ⟨_, f₃, w₃, installed, ran⟩ := of_bind_ok ran
    obtain ⟨g₃, sound₃, -⟩ := (installTable_sound (U := fun v => v = obj) hl cls rfl).goes stands₂
      (by rintro _ rfl; exact has _ (by simp)) installed
    have stands₃ := sound₃.stands stands₂
    obtain ⟨g₄, sound₄, -⟩ := tail.goes stands₃
      (by rintro _ rfl; exact sound₃.becomes.keeps _ (has _ (by simp))) ran
    have later₃ : Later s w₃ fin := sound₄.proceeds.later.trans before.later
    rw [offset, List.replicate_succ] at object₂
    obtain ⟨x₃, rfl, rfl, goes₃, arranges, first, object₃⟩ := installTable_arranges hl.walks
      complete.standard own stands₂.sound.moment top isObj object₂ (upholds.keeps new.toKeeps)
        installed later₃
    have known := laidOut (sound₃.proceeds.trans sound₄.proceeds)
    obtain ⟨x', isFrame, isWork, passes, boxes, starts⟩ :=
      runConstructor_starts [first] complete implicit
      (constructs layout known) written stands₃.sound (defines.goes (goes₂.trans goes₃))
        (goes₃.env.trans top) (goes₃.knows isObj) object₃ offset.symm ran before
    refine ⟨layout, x', known, isFrame, isWork,
      ((goes₂.trans goes₃).passes complete later₃).trans passes,
      ?_, starts⟩
    rw [boxes, arranges.boxes, new.boxes]
  · rename_i noTable
    have offset : layout.offset = 0 := by simp [ClassLayout.offset, noTable]
    obtain ⟨g₄, sound₄, -⟩ := tail.goes stands₂ (by rintro _ rfl; exact has _ (by simp)) ran
    have later₂ : Later s x₂.work fin := sound₄.proceeds.later.trans before.later
    rw [offset] at object₂
    have known := laidOut sound₄.proceeds
    obtain ⟨x', isFrame, isWork, passes, boxes, starts⟩ :=
      runConstructor_starts [] complete implicit
      (constructs layout known) written stands₂.sound (defines.goes goes₂) top isObj object₂
      offset.symm ran before
    refine ⟨layout, x', known, isFrame, isWork,
      (goes₂.passes complete later₂).trans passes, ?_, starts⟩
    rw [boxes, new.boxes]

end Emit

/-! ## Static properties -/

/-- The globals of static properties may be written, and hold nothing at first. -/
def Work.StaticsMade (w : Work) : Prop :=
  ∀ d g, w.statics.get? d = some g → ∃ name, w.code.global? g = some ⟨name, .ptr, false, some .zero⟩

theorem Compile.staticGlobal_made {s : Setup} {w w' : Work} {prop : DeclId} {g : GlobalId}
    (statics : w.StaticsMade) (ran : staticGlobal prop s w = .ok g w') :
    w'.StaticsMade ∧ ∃ name, w'.code.global? g = some ⟨name, .ptr, false, some .zero⟩ := by
  obtain ⟨_, _, got, ran⟩ := of_bind_ok ran
  cases got
  cases known : w.statics.get? prop with
  | some found =>
    rw [known] at ran
    cases ran
    exact ⟨statics, statics prop g known⟩
  | none =>
    rw [known] at ran
    obtain ⟨q, _, asked, ran⟩ := of_bind_ok ran
    obtain ⟨rfl, -⟩ := of_asks_ok asked
    obtain ⟨_, _, named, ran⟩ := of_bind_ok ran
    cases named
    obtain ⟨_, _, named, ran⟩ := of_bind_ok ran
    cases named
    obtain ⟨g, w₁, added, ran⟩ := of_bind_ok ran
    cases ran
    have adds (label : String) : Ends s w (code (·.addGlobal label .ptr false .zero)) fun g w' =>
        ∃ name, w'.code.global? g = some ⟨name, .ptr, false, some .zero⟩ :=
      addGlobal_ends fun _ _ full _ _ made => ⟨full, made⟩
    obtain ⟨there, new⟩ := (adds _).of_ok added
    refine ⟨fun d g' known => ?_, new⟩
    rcases Frame.get?_insert_cases known with rfl | old
    · exact new
    · cases added
      obtain ⟨name, made⟩ := statics d g' old
      exact ⟨name, there.later.extends.code.global _ _ made⟩

/-- Values were put into new boxes, and read-only globals are as they were. -/
structure Machine.Memory.Boxed (code : Module) (values : List Value) (m m' : Memory) : Prop where
  heap : m'.heap.toList = m.heap.toList ++ values
  upholds : m'.Upholds code

namespace Emit

variable {s : Setup} {x : Stage} {fin w : Work} {f : Frame} {m : DeclId}
  {g : GlobalId} {info i : Info}
  {start : ExprId} {v : Value} {depth : Nat}

theorem of_closedInfoOf_ok {t : TypeId} {f f' : Frame} {w w' : Work}
    (scalar : s.program.scalarInfo? t = some i) (ran : closedInfoOf t f s w = .ok (info, f') w') :
    info = i ∧ f' = f ∧ w' = w := by
  obtain ⟨_, _, _, asked, ran⟩ := of_bind_ok ran
  cases asked
  rw [Program.closed_of_scalarInfo? scalar] at ran
  obtain ⟨_, _, _, got, ran⟩ := of_bind_ok ran
  cases got
  obtain ⟨rfl, known⟩ := of_lift_ok ran
  rw [Compile.infoOf_apply] at known
  obtain ⟨rfl, rfl⟩ := Compile.infoAt_scalar scalar known
  exact ⟨rfl, rfl, rfl⟩

theorem of_staticVariable_ok {f f' : Frame} {w w' : Work} (moment : Moment s w)
    (plain : s.program.HoldsPlainly m i) (statics : w.StaticsMade)
    (ran : staticVariable m f s w = .ok ((g, info), f') w') : Reaches s w w' ∧ f' = f ∧ info = i ∧
      w'.StaticsMade ∧ ∃ name, w'.code.global? g = some ⟨name, .ptr, false, some .zero⟩ := by
  obtain ⟨q, isProperty, scalar, -⟩ := plain
  obtain ⟨_, _, _, lifted, ran⟩ := of_bind_ok ran
  obtain ⟨rfl, found⟩ := of_lift_ok lifted
  obtain ⟨_, _, _, asked, ran⟩ := of_bind_ok ran
  obtain ⟨rfl, rfl, isProperty'⟩ := of_asks_ok asked
  cases isProperty.symm.trans isProperty'
  obtain ⟨_, _, _, known, last⟩ := of_bind_ok ran
  cases last
  obtain ⟨rfl, rfl, rfl⟩ := of_closedInfoOf_ok scalar known
  exact ⟨((Compile.staticGlobal_walks m).ends moment).of_ok found |>.1, rfl, rfl,
    Compile.staticGlobal_made statics found⟩

/-- A literal is put into a box, and the box into the global of a static property. -/
theorem storeLiteral_does (moment : Moment s x.work)
    (literal : s.program.literal? start = some (i, v))
    {c : Cell} (known : x.memory.globals[g.raw]? = some c) (writable : c.readonly = false) :
    Does s x (do discard (storeStatic (.ofDepth depth) g i (← (Lowering.ofDepth depth).expr start)))
      fun _ x' => x'.work = x.work ∧
        x'.memory = (x.memory.push v).setRoot (address x.memory.heap.size) (.global g) := by
  have same : (do discard (storeStatic (.ofDepth depth) g i (← (Lowering.ofDepth depth).expr start))
    :
      Emit Unit) = (fun _ => ⟨⟩) <$> ((do
        (Lowering.ofDepth depth).coerced (← (Lowering.ofDepth depth).expr start) i) >>= fun p => do
          let addr ← Draft.globalAddr g
          Draft.store p addr
          return Operand.boxed p i) := by
    rw [bind_assoc, map_bind]
    rfl
  rw [same, ← bind_pure_comp]
  refine .bind (Q := fun _ x' => x'.work = x.work ∧
    x'.memory = (x.memory.push v).setRoot (address x.memory.heap.size) (.global g)) ?_
    fun _ _ _ here => .pure here
  refine .bind (literal_boxed depth moment literal) ?_
  rintro p x₁ goes₁ ⟨work₁, isBox, memory₁⟩
  refine .write_bind (.const (.global g) "gaddr") ?_
  rintro addr q₂ goes₂ ⟨isAddr, memory₂, -⟩
  have isMemory : q₂.memory = x.memory.push v := memory₂.trans memory₁
  have stored : q₂.memory.store (q₂.values addr) (q₂.values p) =
      .ok ((x.memory.push v).setRoot (address x.memory.heap.size) (.global g)) := by
    rw [isAddr.value, (goes₂.knows isBox).value, isMemory]
    have known' : (x.memory.push v).globals[g.raw]? = some c := known
    exact Memory.store_global known' writable _
  refine .write_bind (.store (p := q₂) stored) ?_
  rintro _ q₃ - ⟨-, memory₃, -⟩
  exact .pure ⟨work₁, memory₃⟩

/-- Stores the start value of a property, if it is static. -/
def initializeStatic (l : Lowering) (m : DeclId) : Emit Unit := do
  match staticStart? (← Compile.asks (·.decl m)) with
  | some start =>
    let (g, info) ← staticVariable m
    discard <| storeStatic l g info (← l.expr start)
  | none => return

theorem storing_walks {l : Lowering} (hl : l.Walks s) (g : GlobalId) (info : Info)
    (start : ExprId) :
    Walks s (do discard (storeStatic l g info (← l.expr start)) : Emit Unit) :=
  .bind (hl.expr _) fun _ => (storeStatic_walks hl _ _ _).discard

theorem initializeStatic_walks {l : Lowering} (hl : l.Walks s) (m : DeclId) :
    Walks s (initializeStatic l m) := by
  refine .bind (.asks _) fun d => ?_
  split
  · exact .bind (staticVariable_walks _) fun _ => storing_walks hl _ _ _
  · exact .pure _

theorem initializeStatic_boxes {d : Decl} (moment : Moment s x.work)
    (grounded : x.frame.Grounded x.work)
    (statics : x.work.StaticsMade) (upholds : x.memory.Upholds fin.code)
    (isDecl : s.program.decl m = .ok d)
    (plain : ∀ e, d.start? true = some e → ∃ i, s.program.HoldsPlainly m i)
    (ran : initializeStatic (.ofDepth depth) m x.frame s x.work = .ok ((), f) w)
    (later : Later s w fin) :
    ∃ x' : Stage, x'.frame = f ∧ x'.work = w ∧ x.Goes s x' ∧ x'.work.StaticsMade ∧
      Memory.Boxed fin.code ((s.program.startsAmong true [(m, d)]).map (·.2))
      x.memory x'.memory := by
  obtain ⟨_, _, _, asked, ran⟩ := of_bind_ok ran
  obtain ⟨rfl, rfl, isDecl'⟩ := of_asks_ok asked
  cases isDecl.symm.trans isDecl'
  rw [staticStart?_eq] at ran
  cases isStart : d.start? true with
  | none =>
    rw [isStart] at ran
    cases ran
    rw [Program.startsAmong_none isStart]
    exact ⟨x, rfl, rfl, .refl x, statics, by simp, upholds⟩
  | some e =>
    obtain ⟨i, isPlain⟩ := plain e isStart
    obtain ⟨v, literal⟩ := isPlain.literal isDecl isStart
    rw [Program.startsAmong_some isStart literal]
    rw [isStart] at ran
    obtain ⟨⟨g, info⟩, _, w₁, isVariable, ran⟩ := of_bind_ok ran
    obtain ⟨there₁, rfl, rfl, statics₁, name, made⟩ :=
      of_staticVariable_ok moment isPlain statics isVariable
    have moment₁ := moment.later there₁.later
    have there := (((storing_walks (Lowering.ofDepth_walks depth) g info e).ends moment₁
      (grounded.later there₁.later)).of_ok ran).1
    -- the memory has had the global from the start
    have known := (there.later.trans later).extends.code.global _ _ made
    have isCell : (Memory.ofModule fin.code).globals[g.raw]? =
        some ⟨name, zeroValue fin.code.types .ptr, false⟩ := by
      replace known : fin.code.globals[g.raw]? = _ := known
      simp [Memory.ofModule, known, initialValue]
    obtain ⟨u, here, -⟩ := upholds _ _ isCell
    have step : x.Goes s (x.later w₁) := ⟨there₁, rfl, .refl _⟩
    obtain ⟨x', isFrame, isWork, goes, same, memory⟩ :=
      storeLiteral_does (x := x.later w₁) moment₁ literal
      here rfl _ _ _ ran
    replace memory : x'.memory = (x.memory.push v).setRoot
        (address x.memory.heap.size) (.global g) :=
      memory
    refine ⟨x', isFrame, isWork, step.trans goes, same ▸ statics₁, ?_, ?_⟩
    · rw [memory, Memory.heap_setRoot_global]
      simp [Memory.push]
    · rw [memory]
      exact (upholds.keeps (Memory.keeps_push _ v)).stored isCell rfl _

/-- The start values of the static properties of a class are put into boxes, one after the other. -/
theorem initializeStatics_boxes {cls : DeclId} {ms : List (DeclId × Decl)}
    (moment : Moment s x.work)
    (grounded : x.frame.Grounded x.work) (statics : x.work.StaticsMade)
    (upholds : x.memory.Upholds fin.code) (areMembers : s.program.members cls = .ok ms)
    (plain : ∀ m d e, (m, d) ∈ ms → d.start? true = some e → ∃ i, s.program.HoldsPlainly m i)
    (ran : initializeStatics (.ofDepth depth) cls x.frame s x.work = .ok ((), f) w)
    (later : Later s w fin) : ∃ x' : Stage, x'.frame = f ∧ x'.work = w ∧ x.Goes s x' ∧
      x'.work.StaticsMade ∧
      Memory.Boxed fin.code ((s.program.startsAmong true ms).map (·.2)) x.memory x'.memory := by
  obtain ⟨c, isClass, parts, declared⟩ := Program.classDecl_of_members areMembers
  obtain ⟨_, _, _, asked, stored⟩ := of_bind_ok ran
  obtain ⟨rfl, rfl, isClass'⟩ := of_asks_ok asked
  cases isClass.symm.trans isClass'
  rw [parts] at stored
  change (ms.map (·.1)).forM (initializeStatic (.ofDepth depth)) x.frame s x.work = _ at stored
  clear parts areMembers asked ran
  induction ms generalizing x with
  | nil =>
    cases stored
    exact ⟨x, rfl, rfl, .refl x, statics, by simp [Program.startsAmong], upholds⟩
  | cons member rest ih =>
    obtain ⟨m, d⟩ := member
    obtain ⟨_, f₁, w₁, ran₁, ran₂⟩ := of_bind_ok stored
    have walks := initializeStatic_walks (Lowering.ofDepth_walks depth) (s := s)
    obtain ⟨there₁, onward₁⟩ := ((walks m).ends moment grounded).of_ok ran₁
    have moment₁ := moment.later there₁.later
    have later₁ := (((Walks.forM walks (rest.map (·.1))).ends moment₁ onward₁.grounded).of_ok
      ran₂).1.later
    obtain ⟨x₁, rfl, rfl, goes₁, statics₁, boxed₁⟩ :=
      initializeStatic_boxes moment grounded statics upholds
      (declared m d List.mem_cons_self) (fun e => plain m d e List.mem_cons_self) ran₁
      (later₁.trans later)
    obtain ⟨x₂, isFrame, isWork, goes₂, statics₂, boxed₂⟩ := ih moment₁ onward₁.grounded statics₁
      boxed₁.upholds (fun m d e inside => plain m d e (List.mem_cons_of_mem _ inside))
      (fun m d inside => declared m d (List.mem_cons_of_mem _ inside)) ran₂
    refine ⟨x₂, isFrame, isWork, goes₁.trans goes₂, statics₂, ?_, boxed₂.upholds⟩
    rw [← List.singleton_append, Program.startsAmong_append, List.map_append,
      boxed₂.heap, boxed₁.heap,
      List.append_assoc]

end Emit

end ShapeCompiler
