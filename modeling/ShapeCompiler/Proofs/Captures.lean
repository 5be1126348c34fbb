import Mathlib.Data.List.Nodup
import ShapeCompiler.Compile.Layout
import ShapeCompiler.Proofs.Growth

/-!
# What a declaration captures

* `Gathering.Keeps`: a step of the search for captured variables preserves a property, and if it
  fails the cause has one;
* `Survey.Rules`: what the single steps have to keep for the whole search to keep it;
* `gather_apart`: no variable is captured twice, and none that the body declares is captured;
* `gather_refers`: what is captured, and what is reported as not bound, is a name that some body
  refers to.
-/

namespace ShapeCompiler

open Source Code

/-! ## Where declarations stand -/

/-- What a declaration can see was recorded for it or for its class. -/
theorem Work.siteOf_recorded {w : Work} {p : Program} {d : DeclId} {site : Site}
    (h : w.siteOf p d = .ok site) : ∃ d', w.sites.get? d' = some site := by
  unfold siteOf at h
  split at h
  · rename_i known
    cases h
    exact ⟨d, known⟩
  · split at h
    · cases h
    · dsimp only at h
      split at h
      · rename_i known
        cases h
        obtain ⟨owner, _, known⟩ := Option.bind_eq_some_iff.mp known
        exact ⟨owner, known⟩
      · cases h

/-! ## Names that bodies refer to -/

/-- The reference is by this name. -/
inductive Source.Reference.By (n : Name) : Reference → Prop where
  | name : By n (.name n)
  | callee (d : DeclId) : By n (.callee n d)

/-- Some body refers to the name and does not bind it. -/
def Source.Program.Refers (p : Program) (n : Name) : Prop :=
  ∃ subject free, p.freeNames subject = .ok free ∧ ∃ r ∈ free.refs, r.By n

/-- What is reported as not bound is the object that a member is called on, or a name that some body
refers to. -/
def Cause.Justified (p : Program) : Cause → Prop
  | .unresolvedCapture text => text = "this" ∨ ∃ n, p.text n = text ∧ p.Refers n
  | _ => True

/-- The names of captured variables are names that some body refers to. -/
def Environment.Refers (p : Program) (e : Environment) : Prop :=
  ∀ slot ∈ e.slots, slot.origin = .capture → ∀ n, slot.name = .named n → p.Refers n

/-! ## Steps that preserve a property -/

/-- The answer has a property, or the cause of the failure has one. -/
def Settles {α : Type} (P : α → Prop) (E : Cause → Prop) : Except Cause α → Prop
  | .ok a => P a
  | .error cause => E cause

/-- Wherever the step succeeds, the property holds after it if it held before; where it fails, the
cause is as it should be. -/
def Gathering.Keeps (P : Gathered → Prop) (E : Cause → Prop) {α : Type} (m : Gathering α) : Prop :=
  ∀ g, P g → Settles (fun result => P result.2) E (m.run g)

namespace Gathering.Keeps

variable {P : Gathered → Prop} {E : Cause → Prop} {α β : Type}

theorem pure (a : α) : Keeps P E (Pure.pure a : Gathering α) := fun _ before => before

theorem throw {cause : Cause} (h : E cause) : Keeps P E (MonadExcept.throw cause : Gathering α) :=
  fun _ _ => h

theorem bind {m : Gathering α} {f : α → Gathering β} (first : Keeps P E m)
    (rest : ∀ a, Keeps P E (f a)) : Keeps P E (m >>= f) := by
  intro g before
  rw [StateT.run_bind]
  have first := first g before
  cases ran : m.run g with
  | error cause =>
    rw [ran] at first
    exact first
  | ok result =>
    rw [ran] at first
    exact rest result.1 result.2 first

theorem modify {change : Gathered → Gathered} (h : ∀ g, P g → P (change g)) :
    Keeps P E (modify change : Gathering PUnit) := fun g before => h g before

theorem forM {f : α → Gathering PUnit} (as : List α) (each : ∀ a ∈ as, Keeps P E (f a)) :
    Keeps P E (as.forM f) := by
  induction as with
  | nil => exact pure _
  | cons a as ih =>
    exact bind (each a List.mem_cons_self) fun _ => ih fun b inside =>
      each b (List.mem_cons_of_mem _ inside)

end Gathering.Keeps

/-! ## The search as a whole -/

namespace Survey

open Gathering

variable (s : Survey)

/-- The search looks at what is seen there: where the declaration stands, or where another one
does. -/
def Sees (site : Site) : Prop := site = s.site ∨ ∃ d, s.work.sites.get? d = some site

/-- What the single steps of the search have to keep: `N` is what is known of the names in use, and
`I` what is known of the variables. -/
structure Rules (N : Name → Prop) (I : Option DeclId → Info → Prop) (P : Gathered → Prop)
    (E : Cause → Prop) : Prop where
  free : ∀ r ∈ s.free.refs, ∀ n, r.By n → N n
  others : ∀ subject free, s.program.freeNames subject = .ok free → ∀ r ∈ free.refs,
    ∀ n, r.By n → N n
  seen : ∀ site, s.Sees site → ∀ n ptr info, site.scope.lookup n = some (.cell ptr info) →
    I (site.scope.declarationOf n) info
  top : ∀ n ptr info, s.work.moduleScope.lookup n = some (.cell ptr info) → I none info
  laidOut : ∀ id e, s.work.registry.env? id = some e → ∀ c ∈ capturedSlots e,
    N c.name ∧ I c.var c.info
  capture : ∀ n var info, N n → I var info → Keeps P E (s.capture n var info)
  unbound : ∀ n, N n → E (.unresolvedCapture (s.program.text n))
  invalid : ∀ e, E (.invalid (.program e))
  receiver : ∀ g, P g → P { g with needsReceiver := true }
  visited : ∀ g d, P g → P { g with visited := d :: g.visited }

namespace Rules

variable {s} {N : Name → Prop} {I : Option DeclId → Info → Prop} {P : Gathered → Prop}
  {E : Cause → Prop} {pull : Pull → Gathering Unit}

theorem ask {α : Type} (h : s.Rules N I P E) (answer : Except ProgramError α) :
    Keeps P E (Survey.ask answer) := by
  cases answer with
  | ok a => exact .pure a
  | error e => exact .throw (h.invalid e)

/-- What follows a question goes on with the answer. -/
theorem ask_bind {α β : Type} (h : s.Rules N I P E) {answer : Except ProgramError α}
    {f : α → Gathering β} (rest : ∀ a, answer = .ok a → Keeps P E (f a)) :
    Keeps P E (Survey.ask answer >>= f) := by
  cases answer with
  | ok a =>
    rw [Survey.ask, pure_bind]
    exact rest a rfl
  | error e => exact fun _ _ => h.invalid e

/-- What is known of a variable that a name refers to. -/
theorem resolved (h : s.Rules N I P E) {origin : Origin}
    (seen : ∀ site, origin.site? = some site → s.Sees site) {n : Name} {ptr : ValueId} {info : Info}
    {var : Option DeclId} (found : s.resolve n origin = some (.cell ptr info, var)) :
    I var info := by
  have sees : s.Sees (origin.site?.getD s.site) := by
    cases known : origin.site? with
    | none => exact .inl rfl
    | some site => exact seen site known
  unfold resolve at found
  dsimp only at found
  split at found
  · rename_i b here
    cases found
    exact h.seen _ sees n ptr info here
  · obtain ⟨b, here, same⟩ := Option.map_eq_some_iff.mp found
    cases same
    exact h.top n ptr info here

theorem useName (h : s.Rules N I P E) (hp : ∀ q, Keeps P E (pull q)) {n : Name} (known : N n)
    {origin : Origin} (seen : ∀ site, origin.site? = some site → s.Sees site) :
    Keeps P E (s.useName pull n origin) := by
  unfold Survey.useName
  split
  · exact .pure _
  · split
    · rename_i found
      exact h.capture _ _ _ known (h.resolved seen found)
    · exact .pure _
    · exact .pure _
    · exact hp _
    · exact .throw (h.unbound n known)

theorem useMember (h : s.Rules N I P E) (hp : ∀ q, Keeps P E (pull q)) (n : Name)
    (chain : List DeclId) : Keeps P E (s.useMember pull n chain) := by
  refine .bind (h.ask _) fun found => ?_
  cases found with
  | some m => exact hp _
  | none => exact .pure _

/-- One case per kind of reference. -/
theorem visit (h : s.Rules N I P E) (hp : ∀ q, Keeps P E (pull q)) (cls : Option DeclId)
    {origin : Origin} (seen : ∀ site, origin.site? = some site → s.Sees site) {r : Reference}
    (known : ∀ n, r.By n → N n) : Keeps P E (s.visit pull cls origin r) := by
  cases r with
  | name n => exact h.useName hp (known n .name) seen
  | callee n d =>
    simp only [Survey.visit]
    split
    · exact h.useName hp (known n (.callee d)) seen
    · exact hp _
  | receiver =>
    cases origin with
    | own => exact .modify h.receiver
    | pulled site => exact .pure _
  | member n =>
    cases cls with
    | some c => exact .bind (h.ask _) fun chain => h.useMember hp n chain
    | none => exact .pure _
  | parentMember n =>
    cases cls with
    | some c => exact .bind (h.ask _) fun chain => h.useMember hp n _
    | none => exact .pure _
  | parentConstructor =>
    cases cls with
    | some c =>
      refine .bind (h.ask _) fun decl => ?_
      split
      · exact hp _
      · exact .pure _
    | none => exact .pure _
  | construct c => exact hp _

theorem mark (h : s.Rules N I P E) (d : DeclId) : Keeps P E (mark d) := by
  intro g before
  change P (if d ∈ g.visited then (false, g) else (true, { g with visited := d :: g.visited })).2
  split
  · exact before
  · exact h.visited g d before

theorem visitBody (h : s.Rules N I P E) (hp : ∀ q, Keeps P E (pull q)) (cls : Option DeclId)
    (subject : Subject) : Keeps P E (s.visitBody pull cls subject) := by
  refine h.ask_bind fun _ known => .forM _ fun r inside =>
    h.visit hp cls (fun site isSite => ?_) (h.others subject _ known r inside)
  exact .inr (Work.siteOf_recorded (toOption_eq_some_iff.mp isSite))

theorem takeOver (h : s.Rules N I P E) (hp : ∀ q, Keeps P E (pull q)) {id : EnvId} {e : Environment}
    (known : s.work.registry.env? id = some e) : Keeps P E (s.takeOver pull e) := by
  refine .forM _ fun c inside => ?_
  split
  · exact h.capture _ _ _ (h.laidOut id e known c inside).1 (h.laidOut id e known c inside).2
  · exact h.useName hp (h.laidOut id e known c inside).1 (by rintro _ ⟨⟩)

theorem follow (h : s.Rules N I P E) (hp : ∀ q, Keeps P E (pull q)) (d : DeclId)
    (f : FunctionDecl) :
    Keeps P E (s.follow pull d f) := by
  unfold Survey.follow
  split
  · rename_i env _
    cases known : s.work.registry.env? env with
    | none => exact .pure _
    | some e => exact h.takeOver hp known
  · exact h.visitBody hp _ _

/-- By induction on the depth: what is followed one step further keeps the property. -/
theorem pullAt (h : s.Rules N I P E) (depth : Nat) (q : Pull) : Keeps P E (s.pullAt depth q) := by
  induction depth generalizing q with
  | zero => exact .pure _
  | succ depth ih =>
    cases q with
    | function d =>
      refine .bind (h.mark d) fun first => ?_
      split
      · refine .bind (h.ask _) fun f => ?_
        split
        · exact h.follow ih d f
        · exact .pure _
      · exact .pure _
    | construct c =>
      refine .bind (h.ask _) fun ctor => ?_
      split
      · exact ih _
      · refine .bind (h.mark c) fun first => ?_
        split
        · exact h.visitBody ih _ _
        · exact .pure _

/-- What the steps keep holds of what is gathered, and a failure has a cause as it should be. -/
theorem gather (h : s.Rules N I P E) {owner : DeclId} (cls : Option DeclId)
    (start : P { visited := [owner] }) : Settles P E (s.gather owner cls) := by
  have visits : Keeps P E (s.free.refs.forM (s.visit (s.pullAt s.depth) cls .own)) :=
    .forM _ fun r inside =>
      h.visit (h.pullAt s.depth) cls (by rintro _ ⟨⟩) (h.free r inside)
  have ends := visits _ start
  cases ran : (s.free.refs.forM (s.visit (s.pullAt s.depth) cls .own)).run
    { visited := [owner] } with
  | error cause =>
    rw [ran] at ends
    simp only [Survey.gather, ran, Bind.bind, Except.bind]
    exact ends
  | ok result =>
    rw [ran] at ends
    simp only [Survey.gather, ran, Bind.bind, Except.bind]
    exact ends

end Rules

end Survey

/-! ## Captured variables -/

/-- The captured variables differ from one another and from those that the body declares. -/
structure Gathered.Apart (free : FreeNames) (g : Gathered) : Prop where
  distinct : (g.captures.map fun c => (c.name, c.var)).Nodup
  notLocal : ∀ c ∈ g.captures, ∀ d, c.var = some d → d ∉ free.decls

namespace Survey

open Gathering

variable (s : Survey)

theorem key_not_mem_of_not_captured {captures : List Captured} {n : Name} {var : Option DeclId}
    (new : isCaptured captures n var = false) :
    (n, var) ∉ captures.map fun c => (c.name, c.var) := by
  intro member
  obtain ⟨c, hc, same⟩ := List.mem_map.mp member
  cases same
  have := List.any_eq_false.mp new c hc
  simp at this

/-- A variable is captured if it is new and not the body's own; it must be within reach. -/
theorem capture_keeps {P : Gathered → Prop} {E : Cause → Prop} {n : Name} {var : Option DeclId}
    {info : Info} (captured : ∀ g, P g → isCaptured g.captures n var = false →
      (∀ d, var = some d → d ∉ s.free.decls) →
      P { g with captures := g.captures ++ [⟨n, var, info⟩] })
    (unbound : E (.unresolvedCapture (s.program.text n))) : Keeps P E (s.capture n var info) := by
  intro g before
  simp only [Survey.capture, StateT.run_bind, StateT.run_get, pure_bind]
  split
  · exact before
  · rename_i isNew
    simp only [Bool.not_eq_true, Bool.or_eq_false_iff] at isNew
    split
    · exact unbound
    · refine captured g before isNew.2 fun d isVar => ?_
      subst isVar
      simpa using isNew.1

/-- No variable is captured twice, and none that the body declares itself. -/
theorem gather_apart {owner : DeclId} {cls : Option DeclId} {found : Gathered}
    (h : s.gather owner cls = .ok found) : found.Apart s.free := by
  have rules : s.Rules (fun _ => True) (fun _ _ => True) (Gathered.Apart s.free) fun _ => True := by
    constructor
    case capture =>
      refine fun n var info _ _ => s.capture_keeps (fun g before isNew notLocal => ⟨?_, ?_⟩) trivial
      · rw [List.map_append, List.nodup_append]
        refine ⟨before.distinct, by simp, ?_⟩
        intro x hx y hy same
        simp only [List.map_cons, List.map_nil, List.mem_singleton] at hy
        subst same hy
        exact key_not_mem_of_not_captured isNew hx
      · intro c hc d hd
        rcases List.mem_append.mp hc with old | new
        · exact before.notLocal c old d hd
        · rw [List.mem_singleton] at new
          subst new
          exact notLocal d hd
    case receiver => exact fun g before => ⟨before.distinct, before.notLocal⟩
    case visited => exact fun g d before => ⟨before.distinct, before.notLocal⟩
    all_goals simp
  have ends : Settles (Gathered.Apart s.free) (fun _ => True) (s.gather owner cls) :=
    rules.gather cls ⟨by simp, by simp⟩
  rw [h] at ends
  exact ends

/-- What is captured are names that some body refers to, if that is so of the environments that are
there; and only such names are reported as not bound. -/
theorem gather_refers (owner : DeclId) (cls : Option DeclId) {subject : Subject}
    (free : s.program.freeNames subject = .ok s.free)
    (laidOut : ∀ id e, s.work.registry.env? id = some e → e.Refers s.program) :
    Settles (fun found => ∀ c ∈ found.captures, s.program.Refers c.name) (Cause.Justified s.program)
      (s.gather owner cls) := by
  have rules : s.Rules s.program.Refers (fun _ _ => True)
      (fun g => ∀ c ∈ g.captures, s.program.Refers c.name) (Cause.Justified s.program) := by
    constructor
    case free => exact fun r inside n by' => ⟨subject, s.free, free, r, inside, by'⟩
    case others => exact fun subject free known r inside n by' =>
      ⟨subject, free, known, r, inside, by'⟩
    case laidOut =>
      intro id e known c inside
      obtain ⟨slot, isSlot, captured⟩ := List.mem_filterMap.mp inside
      split at captured
      · rename_i n isCapture isName
        cases captured
        exact ⟨laidOut id e known slot isSlot isCapture n isName, trivial⟩
      · cases captured
    case capture =>
      intro n var info known _
      refine s.capture_keeps (fun g before _ _ c inside => ?_) (.inr ⟨n, rfl, known⟩)
      rcases List.mem_append.mp inside with old | new
      · exact before c old
      · rw [List.mem_singleton] at new
        exact new ▸ known
    case seen => simp
    case top => simp
    case unbound => exact fun n known => .inr ⟨n, rfl, known⟩
    case invalid => exact fun _ => trivial
    case receiver => exact fun _ before => before
    case visited => exact fun _ _ before => before
  exact rules.gather cls (by simp)

end Survey

end ShapeCompiler
