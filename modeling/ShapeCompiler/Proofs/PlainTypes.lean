import ShapeCompiler.Proofs.Intersections
import ShapeCompiler.Proofs.Mentions
import ShapeCompiler.Proofs.Nesting
import ShapeCompiler.Proofs.UnboundNames

/-!
# Types without parameters

Where no type parameter stands in a type, it is lowered without bindings: for the parameters of
functions, for properties and for what functions return. Parameters are looked for in the parts of a
type, but lowering also goes on to the properties of interfaces and to the layouts of classes.

* `TypeStore.mentionsParam_of_part`: the parts of a type mention no parameter that it does not
  mention;
* `Program.LoweredFor`: the types that are lowered when a type is;
* `Program.PlainInterfaces`: none that is lowered for a property of an interface among them is a
  parameter;
* `Compile.infoOf_plain`: then bindings do not matter for the type, and none is missed.

For an interface with a parameter in it bindings do matter (`Compile.interface_needs_bindings`).
-/

namespace ShapeCompiler

open Source Code

namespace Source

/-! ## Mentions of parameters -/

/-- The types that stand in a type, those of a function type among them. -/
def TypeExpr.inner : TypeExpr → List TypeId
  | .object fields => fields.map (·.2)
  | .union members | .intersection members => members
  | .function params ret _ => params ++ [ret]
  | _ => []

theorem TypeExpr.inner_of_parts {e : TypeExpr} {t : TypeId} (isPart : t ∈ e.parts) :
    t ∈ e.inner := by
  cases e with
  | object | union | intersection => exact isPart
  | _ => cases isPart

namespace TypeStore

variable {ts : TypeStore} {t u : TypeId}

/-- The one type stands in the other. -/
def StandsIn (ts : TypeStore) (t u : TypeId) : Prop := u ∈ (ts.get t).inner

def IsParam (ts : TypeStore) (t : TypeId) : Prop := ∃ n, ts.get t = .param n

theorem mentionsParamAt_iff {depth : Nat} : ts.mentionsParamAt depth t ↔
    ∃ fewer < depth, LeadsIn ts.StandsIn ts.IsParam fewer t := by
  induction depth generalizing t with
  | zero => simp [mentionsParamAt]
  | succ depth ih =>
    rw [LeadsIn.exists_lt_succ]
    simp only [mentionsParamAt, StandsIn, IsParam]
    cases ts.get t with
    | object fields => simp [TypeExpr.inner, ih, exists_comm]
    | _ => simp [TypeExpr.inner, ih, or_and_right, exists_or]

/-- A type nests no deeper than the store is long. -/
theorem mentionsParam_iff : ts.mentionsParam t ↔ ∃ steps,
    LeadsIn ts.StandsIn ts.IsParam steps t := by
  rw [mentionsParam, mentionsParamAt_iff]
  constructor
  · rintro ⟨steps, _, h⟩
    exact ⟨steps, h⟩
  · intro h
    have among (t : TypeId) (goes : ts.IsParam t ∨ ∃ u, ts.StandsIn t u) :
        t ∈ (List.range ts.size).map TypeId.mk := by
      refine List.mem_map.mpr ⟨t.raw, List.mem_range.mpr ?_, rfl⟩
      by_contra outside
      have isAny : ts.get t = .any := by
        simp only [size] at outside
        simp [get, Array.getD, outside]
      obtain ⟨n, isParam⟩ | ⟨u, inside⟩ := goes
      · cases isAny.symm.trans isParam
      · rw [StandsIn, isAny] at inside
        cases inside
    obtain ⟨steps, few, h⟩ := LeadsIn.bounded _ among h
    rw [List.length_map, List.length_range] at few
    exact ⟨steps, Nat.lt_succ_of_lt few, h⟩

theorem mentionsParam_of_param {n : Name} (isParam : ts.get t = .param n) : ts.mentionsParam t :=
  mentionsParam_iff.mpr ⟨0, n, isParam⟩

theorem mentionsParam_of_part (isPart : u ∈ (ts.get t).parts) (mentions : ts.mentionsParam u) :
    ts.mentionsParam t := by
  obtain ⟨steps, h⟩ := mentionsParam_iff.mp mentions
  exact mentionsParam_iff.mpr ⟨steps + 1, .inr ⟨u, TypeExpr.inner_of_parts isPart, h⟩⟩

end TypeStore

namespace Program

variable {p : Program} {t u : TypeId}

/-! ## What is lowered for a type -/

/-- The second type is lowered when the first is: it is the first itself, a part of another one, or
what an interface or a class that is laid out has for a property. -/
inductive LoweredFor (p : Program) (t : TypeId) : TypeId → Prop where
  | self : LoweredFor p t t
  | part {u part : TypeId} (lowered : LoweredFor p t u) (isPart : part ∈ (p.types.get u).parts) :
      LoweredFor p t part
  | field {u : TypeId} {d : DeclId} {fields : List (Name × TypeId)} {f : Name × TypeId}
      (lowered : LoweredFor p t u) (isInterface : p.types.get u = .interface d)
      (known : p.interfaceFields d = .ok fields) (isField : f ∈ fields) : LoweredFor p t f.2
  | layout {u m v : TypeId} {members : List TypeId} {c : DeclId} (lowered : LoweredFor p t u)
      (isIntersection : p.types.get u = .intersection members) (isMember : m ∈ members)
      (holds : p.Holds c m) (isProperty : v ∈ p.propertyTypes c) : LoweredFor p t v

/-- Where an interface is lowered for the type, no type parameter is lowered for a property of
it. -/
def PlainInterfaces (p : Program) (t : TypeId) : Prop :=
  ∀ u d fields, p.LoweredFor t u → p.types.get u = .interface d → p.interfaceFields d = .ok fields →
    ∀ f ∈ fields, ∀ v n, p.LoweredFor f.2 v → p.types.get v ≠ .param n

theorem mentionsParam_of_propertyTypes {c : DeclId} (isProperty : t ∈ p.propertyTypes c) :
    p.types.mentionsParam t = false := by
  unfold propertyTypes at isProperty
  cases known : (p.instanceProperties c).toOption with
  | none => simp [known] at isProperty
  | some ds =>
    rw [known] at isProperty
    simpa using (List.mem_filter.mp isProperty).2

theorem mentionsParam_of_isPart (plain : p.types.mentionsParam t = false)
    (isPart : u ∈ (p.types.get t).parts) : p.types.mentionsParam u = false := by
  rw [Bool.eq_false_iff] at plain ⊢
  exact fun mentions => plain (TypeStore.mentionsParam_of_part isPart mentions)

theorem ne_param_of_plain (plain : p.types.mentionsParam t = false) (n : Name) :
    p.types.get t ≠ .param n := fun isParam =>
  Bool.eq_false_iff.mp plain (TypeStore.mentionsParam_of_param isParam)

/-- By induction on the way from the type to what is lowered for it: parameters are not mentioned,
up to the first interface on the way. -/
theorem LoweredFor.ne_param (lowered : p.LoweredFor t u) (plain : p.types.mentionsParam t = false)
    (interfaces : p.PlainInterfaces t) (n : Name) : p.types.get u ≠ .param n := by
  have passes : p.types.mentionsParam u = false ∨ ∃ v d fields, p.LoweredFor t v ∧
      p.types.get v = .interface d ∧ p.interfaceFields d = .ok fields ∧
        ∃ f ∈ fields, p.LoweredFor f.2 u := by
    induction lowered with
    | self => exact .inl plain
    | part _ isPart ih =>
      rcases ih with plain | ⟨v, d, fields, at', isInterface, known, f, isField, inside⟩
      · exact .inl (mentionsParam_of_isPart plain isPart)
      · exact .inr ⟨v, d, fields, at', isInterface, known, f, isField, inside.part isPart⟩
    | @field u d fields f lowered isInterface known isField =>
      exact .inr ⟨u, d, fields, lowered, isInterface, known, f, isField, .self⟩
    | layout _ _ _ _ isProperty => exact .inl (mentionsParam_of_propertyTypes isProperty)
  rcases passes with plain | ⟨v, d, fields, at', isInterface, known, f, isField, inside⟩
  · exact ne_param_of_plain plain n
  · exact interfaces v d fields at' isInterface known f isField u n inside

/-- Parameters may be mentioned by functions. By induction on what is lowered for a property. -/
theorem PlainInterfaces.of_fields (each : ∀ d fields, p.interfaceFields d =
    .ok fields → ∀ f ∈ fields,
    p.types.mentionsParam f.2 = false ∨ ∃ params ret origin, p.types.get f.2 =
    .function params ret origin) :
    p.PlainInterfaces t := by
  intro _ d fields _ _ known f isField v n lowered
  have plain : p.types.mentionsParam v = false ∨
      ∃ params ret origin, p.types.get v = .function params ret origin := by
    induction lowered with
    | self => exact each d fields known f isField
    | part _ isPart ih =>
      rcases ih with plain | ⟨params, ret, origin, isFunction⟩
      · exact .inl (mentionsParam_of_isPart plain isPart)
      · rw [isFunction] at isPart
        cases isPart
    | field _ _ known isField => exact each _ _ known _ isField
    | layout _ _ _ _ isProperty => exact .inl (mentionsParam_of_propertyTypes isProperty)
  rcases plain with plain | ⟨params, ret, origin, isFunction⟩
  · exact ne_param_of_plain plain n
  · simp [isFunction]

end Program

end Source

namespace Compile

variable {s : Setup} {α β : Type}

/-! ## Bindings that do not matter -/

theorem bind_congr {m m' : Compile α} {f f' : α → Compile β} (first : m s = m' s)
    (rest : ∀ a, f a s = f' a s) : (m >>= f) s = (m' >>= f') s := by
  funext w
  rw [bind_apply, bind_apply, first]
  cases m' s w with
  | ok a w' => exact congrFun (rest a) w'
  | error e w' => rfl

theorem mapM_congr {f f' : α → Compile β} {as : List α} (each : ∀ a ∈ as, f a s = f' a s) :
    as.mapM f s = as.mapM f' s := by
  induction as with
  | nil => rfl
  | cons a as ih =>
    rw [List.mapM_cons, List.mapM_cons]
    refine bind_congr (each a List.mem_cons_self) fun _ => ?_
    exact bind_congr (ih fun a' inside => each a' (List.mem_cons_of_mem _ inside)) fun _ => rfl

theorem asks_congr {question : Program → Except ProgramError α} {f f' : α → Compile β}
    (rest : ∀ a, question s.program = .ok a → f a s = f' a s) :
    (asks question >>= f) s = (asks question >>= f') s := by
  funext w
  rw [bind_apply, bind_apply, asks_apply]
  cases answer : question s.program with
  | ok a => exact congrFun (rest a answer) w
  | error e => rfl

section Infos

variable {part : PartInfo} {b b' : Bindings}

theorem objectInfoBy_congr {fields : List (Name × TypeId)}
    (each : ∀ f ∈ fields, part b f.2 s = part b' f.2 s) :
    objectInfoBy part b fields s = objectInfoBy part b' fields s :=
  bind_congr (mapM_congr fun f inside => bind_congr (each f inside) fun _ => rfl) fun _ => rfl

theorem interfaceInfoBy_congr {d : DeclId} (each :
    ∀ fields, s.program.interfaceFields d = .ok fields →
      ∀ f ∈ fields, part b f.2 s = part b' f.2 s) :
    interfaceInfoBy part b d s = interfaceInfoBy part b' d s := by
  have properties : (asks (·.interfaceFields d) >>= objectInfoBy part b) s =
      (asks (·.interfaceFields d) >>= objectInfoBy part b') s :=
    asks_congr fun fields known => objectInfoBy_congr (each fields known)
  funext w
  by_cases inside : d ∈ w.interfacesInProgress
  · change (if d ∈ w.interfacesInProgress then _ else _ : Compile Info) s w =
      (if d ∈ w.interfacesInProgress then _ else _ : Compile Info) s w
    rw [if_pos inside, if_pos inside]
  · rw [interfaceInfoBy_apply b inside, interfaceInfoBy_apply b' inside, properties]

theorem unionInfoBy_congr {members : List TypeId}
    (each : ∀ m ∈ members, part b m s = part b' m s) :
    unionInfoBy part b members s = unionInfoBy part b' members s := by
  refine bind_congr (mapM_congr fun m inside => ?_) fun _ => rfl
  split
  · rfl
  · exact each m inside

theorem segmentsBy_congr {start : Nat} {members : List TypeId}
    (each : ∀ m ∈ members, part b m s = part b' m s) :
    segmentsBy part b start members s = segmentsBy part b' start members s := by
  induction members generalizing start with
  | nil => rfl
  | cons m rest ih =>
    refine bind_congr (each m List.mem_cons_self) fun _ => bind_congr rfl fun _ =>
      bind_congr rfl fun _ => ?_
    exact bind_congr (ih fun m' inside => each m' (List.mem_cons_of_mem _ inside)) fun _ => rfl

end Infos

section Plain

variable {t u : TypeId} (plain : s.program.types.mentionsParam t = false)
  (interfaces : s.program.PlainInterfaces t)

include plain interfaces

/-- By induction on the depth: only a parameter is looked up, and none is lowered for the type. -/
theorem infoAt_congr (depth : Nat) (lowered : s.program.LoweredFor t u) (b b' : Bindings) :
    infoAt depth b u s = infoAt depth b' u s := by
  induction depth generalizing u with
  | zero => rfl
  | succ depth ih =>
    funext w
    rw [infoAt, infoAt, program_bind_apply, program_bind_apply]
    cases isType : s.program.types.get u with
    | interface d =>
      exact congrFun (interfaceInfoBy_congr fun fields known f isField =>
        ih (.field lowered isType known isField)) w
    | object fields =>
      refine congrFun (objectInfoBy_congr fun f isField => ih (.part lowered ?_)) w
      rw [isType]
      exact List.mem_map_of_mem isField
    | union members =>
      refine congrFun (unionInfoBy_congr fun m isMember => ih (.part lowered ?_)) w
      rwa [isType]
    | intersection members =>
      refine congrFun (bind_congr (segmentsBy_congr fun m isMember => ih (.part lowered ?_))
        fun _ => rfl) w
      rwa [isType]
    | param n => exact absurd isType (lowered.ne_param plain interfaces n)
    | _ => rfl

/-- The step fails for another reason than that a parameter stands for nothing. -/
def OtherThanUnbound (cause : Cause) : Prop := ∀ d n, cause ≠ .unboundParam d n

/-- By induction on the depth, with what is lowered for the type. That a value is known as an
instance is told by its type, since no parameter stands for one; so the classes that are laid out
are those of the type. -/
theorem infoAt_bound {depth : Nat} {busy : List DeclId} (lowered : s.program.LoweredFor t u)
    (b : Bindings) : FailsOnly OtherThanUnbound s busy (infoAt depth b u)
      fun i => ∀ c, i = .instanceOf c → s.program.Holds c u := by
  induction depth generalizing u b busy with
  | zero => exact .fail (.inr fun _ _ => by simp)
  | succ depth ih =>
    refine .program_bind ?_
    split
    case h_8 d isType =>
      refine .pure fun c isInstance => ?_
      cases isInstance
      exact .instance isType
    case h_9 d isType =>
      refine (FailsOnly.interfaceInfoBy fun _ fields known f isField => ?_).mono
        fun i other c isInstance => absurd isInstance (other c)
      exact (ih (.field lowered isType known isField) b).mono fun _ _ => trivial
    case h_10 fields isType =>
      refine (FailsOnly.objectInfoBy fun f isField =>
        (ih (.part lowered ?_) b).mono fun _ _ => trivial).mono
        fun i other c isInstance => absurd isInstance (other c)
      rw [isType]
      exact List.mem_map_of_mem isField
    case h_11 members isType =>
      refine (FailsOnly.unionInfoBy fun m isMember => ih (.part lowered ?_) b).mono
        fun i made c isInstance => ?_
      · rwa [isType]
      · obtain ⟨m, isMember, holds⟩ := made c isInstance
        exact .union isType isMember (holds c isInstance)
    case h_12 members isType =>
      refine (FailsOnly.segmentsBy (fun m isMember => ih (.part lowered ?_) b) ?_).bind fun _ _ =>
        (FailsOnly.shapeOfIntersection _ _).bind fun _ _ =>
          .pure fun c isInstance => by cases isInstance
      · rwa [isType]
      · exact fun m isMember c holds => FailsOnly.layoutBy fun _ v isProperty =>
          (ih (.layout lowered isType isMember (holds c rfl) isProperty) .root).mono
            fun _ _ => trivial
    case h_14 n isType => exact absurd isType (lowered.ne_param plain interfaces n)
    all_goals exact .pure fun c isInstance => by cases isInstance

end Plain

/-- A type that mentions no parameter is lowered alike under all bindings, in every state, and no
parameter is missed, as long as none is lowered for the properties of interfaces either. -/
theorem infoOf_plain {s : Setup} {t : TypeId} (plain : s.program.types.mentionsParam t = false)
    (interfaces : s.program.PlainInterfaces t) (b : Bindings) (w : Work) :
    infoOf b t s w = infoOf .root t s w ∧
      ∀ e w', infoOf b t s w = .error e w' → ∀ d n, e.cause ≠ .unboundParam d n := by
  rw [infoOf_apply, infoOf_apply]
  refine ⟨congrFun (infoAt_congr plain interfaces _ .self b .root) w, fun e w' ran => ?_⟩
  exact (infoAt_bound plain interfaces .self b).ended ran fun _ _ _ => by simp

/-- An object with a list and an instance of a class with an object in it. What a property of the
class holds is a parameter, and what a function in the list takes. -/
@[irreducible] def plainParts : Program := (Id.run <| StateT.run (do
  let value ← Construction.paramType "T"
  let node ← Construction.interfaceType ⟨0⟩
  let next ← Construction.optionalType node
  let visit ← Construction.functionType [value] .void none
  let _ ← Construction.interface "Node" [("value", .boolean), ("visit", visit), ("next", next)]
  let cls ← Construction.classDecl "Box" none .none
  discard <| Construction.property cls "held" value none
  discard <| Construction.property cls "list" node none
  let both ← Construction.intersectionType [← Construction.instanceType cls,
    ← Construction.objectType [("a", .text)]]
  discard <| Construction.objectType [("both", both), ("next", next)] : Building Unit) {}).2.program

/-- Whether a type mentions no parameter or is that of a function. -/
def mentionsNone (p : Program) (t : TypeId) : Bool :=
  !p.types.mentionsParam t || match p.types.get t with
    | .function _ _ _ => true
    | _ => false

/-- The object is lowered to one shape, with or without a binding. -/
theorem infoOf_plain_plainParts : ∃ w,
    infoOf .root ⟨14⟩ (.of plainParts .ambient {}) .start = .ok (.object ⟨5⟩) w ∧
    infoOf (standingFor .number) ⟨14⟩ (.of plainParts .ambient {}) .start =
    .ok (.object ⟨5⟩) w := by
  have lowered : (infoOf .root ⟨14⟩).gives (.of plainParts .ambient {}) .start
      (decide <| · = .object ⟨5⟩) := by
    decide +kernel
  have each : ∀ i < plainParts.decls.size, ∀ fields ∈ (plainParts.interfaceFields ⟨i⟩).toOption,
      ∀ f ∈ fields, mentionsNone plainParts f.2 := by
    decide +kernel
  have interfaces : plainParts.PlainInterfaces ⟨14⟩ := by
    refine .of_fields fun d fields known f isField => ?_
    have none := each d.raw (Program.raw_lt_of_interfaceFields known) fields
      (by simp [known, Except.toOption]) f isField
    rcases Bool.or_eq_true_iff.mp none with plain | isFunction
    · exact .inl (by simpa using plain)
    · split at isFunction
      · rename_i params ret origin is
        exact .inr ⟨params, ret, origin, is⟩
      · cases isFunction
  obtain ⟨i, ran, isObject⟩ := of_gives lowered
  obtain rfl := of_decide_eq_true isObject
  have same := (infoOf_plain (s := .of plainParts .ambient {}) (t := ⟨14⟩)
    (by decide +kernel) interfaces
    (standingFor .number) .start).1
  exact ⟨_, ran, same.trans ran⟩

/-- A generic function with a function in it that takes an interface with the type parameter in
it. -/
@[irreducible] def boxedParam : Program := (Id.run <| StateT.run (do
  let t ← Construction.paramType "T"
  let (box, _) ← Construction.interface "Box" [("v", t)]
  let sink ← Construction.ambientFunction "sink" [← Construction.param "v" .boolean] .void
  Construction.pushEntry (← Construction.stmt (.function sink))
  let b ← Construction.param "b" box
  let call ← Construction.expr (.call (← Construction.ident "sink")
    [← Construction.expr (.bool true)] none)
  let h ← Construction.function "h" [] [b] (some .void) [← Construction.stmt (.expr call)]
  let x ← Construction.param "x" t
  let held ← Construction.object [("v", ← Construction.ident "x")]
  let passed ← Construction.expr (.call (← Construction.ident "h") [held] none)
  let g ← Construction.function "g" ["T"] [x] (some .void)
    [← Construction.stmt (.function h), ← Construction.stmt (.expr passed)]
  Construction.pushEntry (← Construction.stmt (.function g))
  let start ← Construction.expr (.call (← Construction.ident "g")
    [← Construction.expr (.bool true)] none)
  Construction.pushEntry (← Construction.stmt (.expr start)) : Building Unit) {}).2.program

/-- The cause of a failure to lower a type. -/
def missed? : EStateM.Result Failure Work Info → Option Cause
  | .ok _ _ => none
  | .error e _ => some e.cause

/-- No parameter is found in the interface, but it is not lowered without a binding, and so the
program does not compile. -/
theorem interface_needs_bindings : boxedParam.types.mentionsParam ⟨8⟩ = false ∧
    (∃ e w, infoOf .root ⟨8⟩ (.of boxedParam .ambient {}) .start = .error e w ∧
      e.cause = .unboundParam "<anonymous>" "T") ∧
    (∃ w, infoOf (standingFor .boolean) ⟨8⟩ (.of boxedParam .ambient {}) .start =
      .ok (.object ⟨0⟩) w) ∧
    ∃ failure, compileUnitWithin 20 boxedParam .ambient {} = .error failure ∧
      failure.cause = .unboundParam "<anonymous>" "T" := by
  have missed : missed? (infoOf .root ⟨8⟩ (.of boxedParam .ambient {}) .start) =
      some (.unboundParam "<anonymous>" "T") := by
    decide +kernel
  have bound : (infoOf (standingFor .boolean) ⟨8⟩).gives (.of boxedParam .ambient {}) .start
      (decide <| · = .object ⟨0⟩) := by
    decide +kernel
  refine ⟨by decide +kernel, ?_, ?_, of_causeOf? (by decide +kernel)⟩
  · unfold missed? at missed
    split at missed
    · cases missed
    · rename_i e w ran
      exact ⟨e, w, ran, Option.some.inj missed⟩
  · obtain ⟨i, ran, isObject⟩ := of_gives bound
    obtain rfl := of_decide_eq_true isObject
    exact ⟨_, ran⟩

end Compile

end ShapeCompiler
