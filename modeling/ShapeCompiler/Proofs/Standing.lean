import ShapeCompiler.Proofs.DeclaredTypes
import ShapeCompiler.Proofs.Natives
import ShapeCompiler.Proofs.Sketches

/-!
# Steps that write well-formed code

* `Work.Sound`: every body that is there is well formed;
* `Frame.Stands`: the body being written keeps its promises, and whatever the frame refers to is
  there;
* `Compile.Sound`, `Emit.Sound`: a part that succeeds keeps both, and what it gives is there;
* `Emit.Flows`: the same of statements, which may leave the block and bind names.

The rules follow the ways in which parts are put together.
-/

namespace ShapeCompiler

open Source Code Work

/-! ## States -/

/-- Every body is well formed over the parameters of its function. -/
def Code.Module.WellFormed (m : Module) : Prop :=
  ∀ f fn body, m.function? f = some fn → fn.body = some body → body.WellFormed fn.params.length

/-- Of a body that is put into a module, and of the bodies that stay. -/
theorem of_define {m : Module} {f f' : FuncId} {code body : Code.Body} {fn : Function}
    (known : (m.define f code).function? f' = some fn) (has : fn.body = some body) :
    (f' = f ∧ body = code ∧ ∃ old, m.function? f = some old ∧ fn.params = old.params) ∨
      f' ≠ f ∧ m.function? f' = some fn := by
  by_cases same : f' = f
  · subst same
    simp only [Module.define, Module.function?, Array.getElem?_modify, if_true,
      Option.map_eq_some_iff] at known
    obtain ⟨old, there, rfl⟩ := known
    cases has
    exact .inl ⟨rfl, rfl, old, there, rfl⟩
  · have apart : f.raw ≠ f'.raw := fun raw => same (by cases f; cases f'; simpa using raw.symm)
    simp only [Module.define, Module.function?, Array.getElem?_modify, apart, if_false] at known
    exact .inr ⟨same, known⟩

theorem Code.Module.WellFormed.define {m : Module} (h : m.WellFormed) {f : FuncId}
    {body : Code.Body}
    (formed : ∀ fn, m.function? f = some fn → body.WellFormed fn.params.length) :
    (m.define f body).WellFormed := by
  intro f' fn body' known has
  rcases of_define known has with ⟨_, rfl, old, there, same⟩ | ⟨_, stays⟩
  · rw [same]
    exact formed old there
  · exact h f' fn body' stays has

/-- Every body is well formed and calls what accepts its arguments, the names at the top mean no
cell of some body, and variables are taken for what they are declared with. -/
structure Work.Sound (s : Setup) (w : Work) : Prop where
  moment : Moment s w
  sorted : w.Sorted s
  bodies : w.code.WellFormed
  calls : ∀ f fn body, w.code.function? f = some fn → fn.body = some body →
    ∀ f' n, body.Calls f' n → w.Accepts s f' n
  made : ∀ key c, w.functions.get? key = some c → w.Accepts s c.func 1
  names : ∀ n ptr info, w.moduleScope.lookup n ≠ some (.cell ptr info)
  reachable : ∀ d ptr info, w.moduleScope.variableOf d ≠ some (.cell ptr info)
  declares : w.moduleScope.Declares s.program
  sites : ∀ d site, w.sites.get? d = some site → site.scope.Declares s.program
  typed : w.Typed s

/-- What is recorded stays: bodies keep their functions, and classes their layouts. -/
structure Work.Retains (w w' : Work) : Prop where
  bodies : ∀ key c, w.functions.get? key = some c →
    ∃ c', w'.functions.get? key = some c' ∧ c'.func = c.func
  layouts : ∀ cls layout, w.layouts.get? cls = some layout → w'.layouts.get? cls = some layout

theorem Work.Retains.of_same {w w' : Work} (same : w'.functions = w.functions)
    (layouts : ∀ cls layout, w.layouts.get? cls = some layout → w'.layouts.get? cls = some layout) :
    w.Retains w' :=
  ⟨fun _ c known => ⟨c, same ▸ known, rfl⟩, layouts⟩

theorem Work.Retains.trans {w w' w'' : Work} (h : w.Retains w') (h' : w'.Retains w'') :
    w.Retains w'' := by
  refine ⟨fun key c known => ?_, fun cls layout known => h'.layouts _ _ (h.layouts _ _ known)⟩
  obtain ⟨c', there, same⟩ := h.bodies key c known
  obtain ⟨c'', there', same'⟩ := h'.bodies key c' there
  exact ⟨c'', there', same'.trans same⟩

/-- A body is recorded, for the function that it had if it was recorded before. -/
theorem Work.Retains.insert {w w' w'' : Work} (h : w.Retains w') {key : FunctionKey}
    {c : CompiledFunction} (isInsert : w''.functions = w'.functions.insert key c)
    (layouts : w''.layouts = w'.layouts)
    (same : ∀ c₀, w.functions.get? key = some c₀ → c.func = c₀.func) : w.Retains w'' := by
  refine ⟨fun key' c₀ known => ?_, layouts ▸ h.layouts⟩
  rw [isInsert]
  by_cases isKey : key = key'
  · subst isKey
    exact ⟨c, Table.get?_insert_self _ _ _, same c₀ known⟩
  · rw [Table.get?_insert_ne _ _ isKey]
    exact h.bodies key' c₀ known

/-- The body for a key was compiled to its end, by some level of the compiler, and the function got
it. -/
inductive Work.Finished (s : Setup) (w : Work) (key : FunctionKey) (func : FuncId) : Prop where
  | mk {depth : Nat} {spec : Specialization} {env : EnvId} {returning : Returning} {name : String}
    {result : Code.Body × Returning} {w₀ w₁ w₂ w₃ : Work} (isKey : spec.key = key)
      (sound : w₀.Sound s)
    (declared : w₀.code.function? func = some ⟨name, [.ptr], .ptr, none⟩)
    (bound : w₀.registry.declEnv? key.subject.decl = some env)
    (returns : Compile.returning key.subject spec.bindings s w₂ = .ok returning w₃)
    (ran : Compile.body (.ofDepth depth) spec func env returning s w₀ = .ok result w₁)
    (absent : w₁.code.function? func = some ⟨name, [.ptr], .ptr, none⟩)
    (later : Later s { w₁ with code := w₁.code.define func result.1 } w) (keeps : w₁.Retains w)

theorem Work.Finished.later {s : Setup} {w w' : Work} {key : FunctionKey} {func : FuncId}
    (h : Finished s w key func) (later : Later s w w') (keeps : w.Retains w') :
    Finished s w' key func := by
  cases h with
  | mk isKey sound declared bound returns ran absent before kept =>
    exact ⟨isKey, sound, declared, bound, returns, ran, absent, before.trans later,
      kept.trans keeps⟩

/-- Each body that is recorded now was recorded before for the same function, or is finished. -/
def Work.Finishes (s : Setup) (w w' : Work) : Prop :=
  ∀ key c, w'.functions.get? key = some c →
    (∃ c₀, w.functions.get? key = some c₀ ∧ c₀.func = c.func) ∨ Finished s w' key c.func

theorem Work.Finishes.of_same {s : Setup} {w w' : Work} (same : w'.functions = w.functions) :
    Finishes s w w' :=
  fun _ c known => .inl ⟨c, same ▸ known, rfl⟩

/-- The compilation goes on: by steps, with its functions in course, and bodies that are recorded
are finished. -/
structure Work.Proceeds (s : Setup) (w w' : Work) : Prop where
  later : Later s w w'
  course : Course s w w'
  keeps : w.Retains w'
  finishes : Finishes s w w'

namespace Work.Proceeds

variable {s : Setup} {w w' w'' : Work}

/-- A part that records no body. -/
theorem of_same (later : Later s w w') (course : Course s w w') (same : w'.functions = w.functions)
    (layouts : ∀ cls layout, w.layouts.get? cls = some layout → w'.layouts.get? cls = some layout) :
    Proceeds s w w' := ⟨later, course, .of_same same layouts, .of_same same⟩

theorem refl (w : Work) : Proceeds s w w := .of_same .same (.refl w) rfl fun _ _ known => known

theorem trans (h : Proceeds s w w') (h' : Proceeds s w' w'') : Proceeds s w w'' where
  later := h.later.trans h'.later
  course := h.course.trans h'.course
  keeps := h.keeps.trans h'.keeps
  finishes key c known := by
    rcases h'.finishes key c known with ⟨c', there, same⟩ | finished
    · rcases h.finishes key c' there with ⟨c₀, there₀, same₀⟩ | finished
      · exact .inl ⟨c₀, there₀, same₀.trans same⟩
      · exact .inr (same ▸ finished.later h'.later h'.keeps)
    · exact .inr finished

end Work.Proceeds

namespace Work.Sound

variable {s : Setup} {w w' : Work}

theorem calm (h : w.Sound s) (proceeds : Proceeds s w w') (calm : w.Calm w') (typed : w'.Typed s) :
    w'.Sound s where
  moment := h.moment.later proceeds.later
  sorted := proceeds.course.sorted h.sorted
  bodies := fun f fn body known has => h.bodies f fn body (calm.bodies f fn body known has) has
  calls := fun f fn body known has f' n call =>
    proceeds.course.accepts (h.calls f fn body (calm.bodies f fn body known has) has f' n call)
  made := fun key c recorded => proceeds.course.accepts (h.made key c (calm.made ▸ recorded))
  names := calm.scope ▸ h.names
  reachable := calm.scope ▸ h.reachable
  declares := calm.scope ▸ h.declares
  sites := calm.sites ▸ h.sites
  typed := typed

/-- No function gets a body, and no environment is laid out. -/
theorem mild (h : w.Sound s) (there : Reaches s w w') (course : Course s w w')
    (ends : w.Calm w' ∧ w'.registry.envs = w.registry.envs) : Proceeds s w w' ∧ w'.Sound s := by
  obtain ⟨calm, envs⟩ := ends
  have proceeds : Proceeds s w w' := .of_same there.later course calm.made there.layouts
  exact ⟨proceeds, h.calm proceeds calm
    (h.typed.stays there.later there.interfaces calm.scope calm.sites envs)⟩

/-- The functions of the module stay. -/
theorem aside (h : w.Sound s) (moment : Moment s w') (code : w'.code = w.code)
    (compiled : w'.compiled = w.compiled)
    (made : ∀ key c, w'.functions.get? key = some c → w.Accepts s c.func 1)
    (names : ∀ n ptr info, w'.moduleScope.lookup n ≠ some (.cell ptr info))
    (reachable : ∀ d ptr info, w'.moduleScope.variableOf d ≠ some (.cell ptr info))
    (declares : w'.moduleScope.Declares s.program)
    (sites : ∀ d site, w'.sites.get? d = some site → site.scope.Declares s.program)
    (typed : w'.Typed s) : w'.Sound s := by
  have course : Course s w w' := Turn.course (.aside (congrArg (·.functions) code) compiled)
  refine ⟨moment, course.sorted h.sorted, code ▸ h.bodies, fun f fn body known has f' n call => ?_,
    fun key c recorded => course.accepts (made key c recorded), names, reachable,
      declares, sites, typed⟩
  exact course.accepts (h.calls f fn body (code ▸ known) has f' n call)

/-- A function that is compiled here gets its body, and that is recorded. -/
theorem define (h : w.Sound s) {f : FuncId} {body : Code.Body}
    {functions : Table FunctionKey CompiledFunction}
    {overrides : Table (DeclId × Name) FuncId} (isOwn : f ∈ w.compiled)
    (moment : Moment s { w with code := w.code.define f body, functions, overrides })
    (made : ∀ key c, functions.get? key = some c → w.Accepts s c.func 1)
    (formed : ∀ fn, w.code.function? f = some fn → body.WellFormed fn.params.length)
    (calls : ∀ f' n, body.Calls f' n → w.Accepts s f' n) :
    Sound s { w with code := w.code.define f body, functions, overrides } := by
  have course : Course s w { w with code := w.code.define f body, functions, overrides } :=
    (Turn.course (.define body isOwn)).trans (Turn.course (.aside rfl rfl))
  refine ⟨moment, course.sorted h.sorted, h.bodies.define formed,
    fun f₀ fn body' known has f' n call => ?_,
    fun key c recorded => course.accepts (made key c recorded), h.names, h.reachable, h.declares,
    h.sites, h.typed.of_same rfl rfl rfl rfl⟩
  rcases of_define known has with ⟨_, rfl, _⟩ | ⟨_, stays⟩
  · exact course.accepts (calls f' n call)
  · exact course.accepts (h.calls f₀ fn body' stays has f' n call)

end Work.Sound

/-- The values that a frame refers to. -/
inductive Frame.Uses (f : Frame) : ValueId → Prop where
  | name {n : Name} {ptr : ValueId} {info : Info}
    (here : f.scope.lookup n = some (.cell ptr info)) : Uses f ptr
  | reachable {d : DeclId} {ptr : ValueId} {info : Info}
    (here : f.scope.variableOf d = some (.cell ptr info)) : Uses f ptr
  | receiver {v : Operand} (here : f.receiver = some v) : Uses f v.value
  | env {current : CurrentEnv} (here : f.env = some current) : Uses f current.ptr

theorem Frame.Uses.of_same {f f' : Frame} {v : ValueId} (h : f'.Uses v) (scope : f'.scope = f.scope)
    (receiver : f'.receiver = f.receiver) (env : f'.env = f.env) : f.Uses v := by
  cases h with
  | name here => exact .name (scope ▸ here)
  | reachable here => exact .reachable (scope ▸ here)
  | receiver here => exact .receiver (receiver ▸ here)
  | env here => exact .env (env ▸ here)

/-- A body is being written in a block that is open. -/
structure Frame.Stands (s : Setup) (w : Work) (f : Frame) (g : Sketch) : Prop where
  sound : w.Sound s
  grounded : f.Grounded w
  declares : f.scope.Declares s.program
  typed : f.scope.Typed s w
  fits : f.draft.Fits g
  isOpen : f.draft.IsOpen
  holds : ∀ v, f.Uses v → f.draft.Has g v

/-- Both are frames of one body: what it was begun for is the same. -/
structure Frame.SameBody (f f' : Frame) : Prop where
  bindings : f'.bindings = f.bindings
  receiverClass : f'.receiverClass = f.receiverClass
  memberOwner : f'.memberOwner = f.memberOwner
  isEntry : f'.isEntry = f.isEntry

theorem Frame.SameBody.refl (f : Frame) : SameBody f f := ⟨rfl, rfl, rfl, rfl⟩

theorem Frame.SameBody.trans {f f' f'' : Frame} (h : SameBody f f') (h' : SameBody f' f'') :
    SameBody f f'' where
  bindings := h'.bindings.trans h.bindings
  receiverClass := h'.receiverClass.trans h.receiverClass
  memberOwner := h'.memberOwner.trans h.memberOwner
  isEntry := h'.isEntry.trans h.isEntry

/-- What the second frame calls was called before or accepts its arguments. -/
def Frame.CallsMore (s : Setup) (f : Frame) (w' : Work) (f' : Frame) : Prop :=
  ∀ callee n, f'.draft.Calls callee n → f.draft.Calls callee n ∨ w'.Accepts s callee n

theorem Frame.CallsMore.refl {s : Setup} {w : Work} (f : Frame) : CallsMore s f w f :=
  fun _ _ calls => .inl calls

theorem Frame.CallsMore.trans {s : Setup} {w' w'' : Work} {f f' f'' : Frame}
    (h : CallsMore s f w' f') (course : Course s w' w'') (h' : CallsMore s f' w'' f'') :
    CallsMore s f w'' f'' := by
  intro callee n calls
  rcases h' callee n calls with earlier | accepts
  · exact (h callee n earlier).imp_right course.accepts
  · exact .inr accepts

/-- A step of the body changed the draft only. -/
structure Frame.Goes (s : Setup) (w : Work) (f : Frame) (g : Sketch) (w' : Work) (f' : Frame)
    (g' : Sketch) : Prop where
  proceeds : Proceeds s w w'
  sound : w'.Sound s
  frame : f' = { f with draft := f'.draft }
  becomes : f.draft.Becomes g f'.draft g'
  calls : f.CallsMore s w' f'

theorem Code.Draft.IsOpen.isClosed {d : Draft} (h : d.IsOpen) : d.isClosed = false := by
  obtain ⟨b, here⟩ := h
  exact here.isClosed

namespace Frame.Goes

variable {s : Setup} {w w' w'' : Work} {f f' f'' : Frame} {g g' g'' : Sketch}

theorem refl (h : f.Stands s w g) : Goes s w f g w f g :=
  ⟨.refl w, h.sound, rfl, .refl h.fits h.isOpen, .refl f⟩

theorem later (h : Goes s w f g w' f' g') : Later s w w' := h.proceeds.later

theorem trans (h : Goes s w f g w' f' g') (h' : Goes s w' f' g' w'' f'' g'') :
    Goes s w f g w'' f'' g'' := by
  refine ⟨h.proceeds.trans h'.proceeds, h'.sound, ?_, h.becomes.trans h'.becomes,
    h.calls.trans h'.proceeds.course h'.calls⟩
  rw [h'.frame, h.frame]

theorem scope (h : Goes s w f g w' f' g') : f'.scope = f.scope := by rw [h.frame]

theorem receiver (h : Goes s w f g w' f' g') : f'.receiver = f.receiver := by rw [h.frame]

theorem env (h : Goes s w f g w' f' g') : f'.env = f.env := by rw [h.frame]

theorem sameBody (h : Goes s w f g w' f' g') : f.SameBody f' := by
  rw [h.frame]
  exact ⟨rfl, rfl, rfl, rfl⟩

theorem stands (h : Goes s w f g w' f' g') (stands : f.Stands s w g) : f'.Stands s w' g' := by
  constructor
  · exact h.sound
  · exact (stands.grounded.later h.later).of_env h.env
  · rw [h.scope]
    exact stands.declares
  · rw [h.scope]
    exact stands.typed.later h.later
  · exact h.becomes.fits
  · exact h.becomes.isOpen
  · intro v uses
    exact h.becomes.keeps v (stands.holds v (uses.of_same h.scope h.receiver h.env))

end Frame.Goes

/-! ## Parts without a frame -/

namespace Compile

variable {s : Setup} {α β : Type}

/-- Where the part succeeds, all bodies are well formed if they were. -/
structure Sound (s : Setup) (m : Compile α) : Prop where
  goes : ∀ {w w' : Work} {a : α}, w.Sound s → m s w = .ok a w' → Proceeds s w w' ∧ w'.Sound s

namespace Sound

variable {m : Compile α}

theorem of_mild (walks : Walks s m) (mild : Mild m)
    (course : ∀ {w w' : Work} {a : α}, m s w = .ok a w' → Course s w w') : Sound s m :=
  ⟨fun sound ran =>
    sound.mild ((walks.ends sound.moment).of_ok ran).1 (course ran) (mild.ends ran)⟩

/-- A part that lays environments out. -/
theorem of_beside (walks : Walks s m)
    (beside : ∀ {w w' : Work} {a : α}, m s w = .ok a w' → Beside w w')
    (typed : ∀ {w w' : Work} {a : α}, Moment s w → w.Typed s → m s w = .ok a w' → w'.Typed s) :
    Sound s m := by
  refine ⟨fun sound ran => ?_⟩
  have there := ((walks.ends sound.moment).of_ok ran).1
  have calm := Calm.of_beside (beside ran)
  have proceeds : Proceeds s _ _ := .of_same there.later (beside ran).course calm.made there.layouts
  exact ⟨proceeds, sound.calm proceeds calm (typed sound.moment sound.typed ran)⟩

theorem environmentOf (d : DeclId) : Sound s (Compile.environmentOf d) :=
  .of_beside (environmentOf_walks d) environmentOf_beside fun moment typed ran =>
    environmentOf_typed moment typed ran

theorem syntheticEnv (params : Nat) : Sound s (Compile.syntheticEnv params) :=
  .of_beside (syntheticEnv_walks params) syntheticEnv_beside fun moment typed ran =>
    syntheticEnv_typed moment typed ran

theorem of_quiet (walks : Walks s m) (quiet : Quiet m) : Sound s m :=
  of_mild walks quiet.mild fun ran => (quiet.still ran).course

theorem pure (a : α) : Sound s (Pure.pure a) := .of_quiet (.pure a) (.pure a)

theorem bind {f : α → Compile β} (first : Sound s m) (rest : ∀ a, Sound s (f a)) :
    Sound s (m >>= f) := by
  refine ⟨fun {w w' b} sound ran => ?_⟩
  rw [bind_apply] at ran
  cases ran₁ : m s w with
  | error e w₁ => simp [ran₁] at ran
  | ok a w₁ =>
    rw [ran₁] at ran
    obtain ⟨proceeds, sound'⟩ := first.goes sound ran₁
    obtain ⟨proceeds', sound''⟩ := (rest a).goes sound' ran
    exact ⟨proceeds.trans proceeds', sound''⟩

theorem throw (e : Failure) : Sound s (MonadExcept.throw e : Compile α) :=
  ⟨fun _ ran => by cases ran⟩

end Sound

end Compile

/-! ## Parts with a frame -/

namespace Emit

variable {s : Setup} {α β : Type} {U V : ValueId → Prop}

/-- Where the values that are used are there and the part succeeds, the body goes on, and the values
that it gives are there. -/
structure Sound (s : Setup) (U : ValueId → Prop) (m : Emit α) (gives : α → List ValueId) :
    Prop where
  goes : ∀ {w w' : Work} {f f' : Frame} {g : Sketch} {a : α}, f.Stands s w g →
    (∀ v, U v → f.draft.Has g v) → m f s w = .ok (a, f') w' →
    ∃ g', Frame.Goes s w f g w' f' g' ∧ ∀ v ∈ gives a, f'.draft.Has g' v

namespace Sound

variable {m : Emit α} {gives : α → List ValueId} {gives' : β → List ValueId}

theorem mono (h : Sound s U m gives) (more : ∀ v, U v → V v) : Sound s V m gives :=
  ⟨fun stands uses ran => h.goes stands (fun v used => uses v (more v used)) ran⟩

/-- What is given is among what was given before or used. -/
theorem less {gives' : α → List ValueId} (h : Sound s U m gives)
    (fewer : ∀ a, ∀ v ∈ gives' a, v ∈ gives a ∨ U v) : Sound s U m gives' := by
  refine ⟨fun {w w' f f' g a} stands uses ran => ?_⟩
  obtain ⟨g', goes, given⟩ := h.goes stands uses ran
  exact ⟨g', goes, fun v isGiven => goes.becomes.uses given uses v (fewer a v isGiven)⟩

theorem pure {a : α} (h : ∀ v ∈ gives a, U v) : Sound s U (Pure.pure a) gives := by
  refine ⟨fun {w w' f f' g b} stands uses ran => ?_⟩
  cases ran
  exact ⟨g, .refl stands, fun v isGiven => uses v (h v isGiven)⟩

/-- What is known of what the part gives is known in the rest. -/
theorem bind_knowing {P : α → Prop} {k : α → Emit β} (first : Sound s U m gives)
    (knows : ∀ {w w' : Work} {f f' : Frame} {g : Sketch} {a : α}, f.Stands s w g →
      m f s w = .ok (a, f') w' → P a)
    (rest : ∀ a, P a → Sound s (fun v => v ∈ gives a ∨ U v) (k a) gives') :
    Sound s U (m >>= k) gives' := by
  refine ⟨fun {w w' f f' g b} stands uses ran => ?_⟩
  obtain ⟨a, f₁, w₁, ran₁, ran₂⟩ := of_bind_ok ran
  obtain ⟨g₁, goes₁, given₁⟩ := first.goes stands uses ran₁
  have uses₁ := goes₁.becomes.uses given₁ uses
  obtain ⟨g₂, goes₂, given₂⟩ := (rest a (knows stands ran₁)).goes (goes₁.stands stands) uses₁ ran₂
  exact ⟨g₂, goes₁.trans goes₂, given₂⟩

theorem bind {k : α → Emit β} (first : Sound s U m gives)
    (rest : ∀ a, Sound s (fun v => v ∈ gives a ∨ U v) (k a) gives') : Sound s U (m >>= k) gives' :=
  first.bind_knowing (P := fun _ => True) (fun _ _ => trivial) fun a _ => rest a

/-- A part that gives no value, and the rest. -/
theorem andThen {k : α → Emit β} (first : Sound s U m fun _ => [])
    (rest : ∀ a, Sound s U (k a) gives') : Sound s U (m >>= k) gives' :=
  first.bind fun a => (rest a).mono fun _ used => .inr used

theorem andThen_knowing {P : α → Prop} {k : α → Emit β} (first : Sound s U m fun _ => [])
    (knows : ∀ {w w' : Work} {f f' : Frame} {g : Sketch} {a : α}, f.Stands s w g →
      m f s w = .ok (a, f') w' → P a)
    (rest : ∀ a, P a → Sound s U (k a) gives') : Sound s U (m >>= k) gives' :=
  first.bind_knowing knows fun a known => (rest a known).mono fun _ used => .inr used

theorem lift {c : Compile α} (h : Compile.Sound s c) :
    Sound s U (liftM c : Emit α) fun _ => [] := by
  refine ⟨fun {w w' f f' g a} stands uses ran => ?_⟩
  obtain ⟨rfl, made⟩ := of_lift_ok ran
  obtain ⟨proceeds, sound⟩ := h.goes stands.sound made
  exact ⟨g, ⟨proceeds, sound, rfl, .refl stands.fits stands.isOpen, .refl f⟩, by simp⟩

/-- A part without a frame that gives no function a body. -/
theorem quiet {c : Compile α} (walks : Compile.Walks s c) (quiet : Compile.Quiet c) :
    Sound s U (liftM c : Emit α) fun _ => [] := lift (.of_quiet walks quiet)

theorem write {step : Writing α} (h : Writing.Sound U step gives fun _ _ => False) :
    Sound s U (liftM step : Emit α) gives := by
  refine ⟨fun {w w' f f' g a} stands uses ran => ?_⟩
  cases ran
  obtain ⟨g', goes, given, calls⟩ := h f.draft g stands.fits stands.isOpen uses
  exact ⟨g', ⟨.refl w, stands.sound, rfl, goes, fun callee n call =>
    (calls callee n call).imp_right False.elim⟩, given⟩

/-- What the frame refers to is there. -/
theorem get_bind {k : Frame → Emit α} (h : ∀ f : Frame,
    Sound s (fun v => f.Uses v ∨ U v) (k f) gives) :
    Sound s U (get >>= k) gives := by
  refine ⟨fun {w w' f f' g a} stands uses ran => ?_⟩
  refine (h f).goes stands ?_ ran
  rintro v (isUsed | isUsed)
  · exact stands.holds v isUsed
  · exact uses v isUsed

theorem fail (cause : Cause) : Sound s U (liftM (Compile.fail cause : Compile α) : Emit α) gives :=
  ⟨fun _ _ ran => by cases ran⟩

theorem ite {c : Prop} [Decidable c] {m' : Emit α} (h : Sound s U m gives)
    (h' : Sound s U m' gives) :
    Sound s U (if c then m else m') gives := by
  split
  · exact h
  · exact h'

/-- A failure stays one when it gets a place. -/
theorem locate {span : Span} (h : Sound s U m gives) : Sound s U (Emit.locate span m) gives :=
  ⟨fun stands uses ran => h.goes stands uses (of_locate_ok ran)⟩

theorem discard (h : Sound s U m gives) : Sound s U (Functor.discard m : Emit PUnit)
    fun _ => [] := by
  change Sound s U ((fun _ => PUnit.unit) <$> m) _
  rw [← bind_pure_comp]
  exact h.bind fun _ => pure (by simp)

theorem mapM {k : α → Emit β} (gives' : β → List ValueId) (as : List α)
    (each : ∀ a ∈ as, Sound s U (k a) gives') :
    Sound s U (as.mapM k) fun bs => bs.flatMap gives' := by
  induction as with
  | nil => exact pure (by simp)
  | cons a as ih =>
    rw [List.mapM_cons]
    apply bind (each a (by simp))
    intro b
    apply bind ((ih fun a inside => each a (by simp [inside])).mono fun _ used => .inr used)
    intro bs
    apply pure
    intro v isGiven
    simp only [List.flatMap_cons, List.mem_append] at isGiven
    rcases isGiven with first | others
    · exact .inr (.inl first)
    · exact .inl others

theorem forM {k : α → Emit PUnit} (as : List α) (each : ∀ a ∈ as, Sound s U (k a) fun _ => []) :
    Sound s U (as.forM k) fun _ => [] := by
  induction as with
  | nil => exact pure (by simp)
  | cons a as ih =>
    apply (each a (by simp)).andThen
    intro _
    exact ih fun a inside => each a (by simp [inside])

theorem filterMapM {k : α → Emit (Option β)} (gives' : β → List ValueId) (as : List α)
    (each : ∀ a ∈ as, Sound s U (k a) fun b => b.toList.flatMap gives') :
    Sound s U (as.filterMapM k) fun bs => bs.flatMap gives' := by
  induction as with
  | nil => exact pure (by simp)
  | cons a as ih =>
    rw [List.filterMapM_cons]
    have others := ih fun a inside => each a (by simp [inside])
    apply bind (each a (by simp))
    intro found
    cases found with
    | none => exact others.mono fun _ used => .inr used
    | some b =>
      apply bind (others.mono fun _ used => .inr used)
      intro bs
      apply pure
      intro v isGiven
      simp only [List.flatMap_cons, List.mem_append] at isGiven
      rcases isGiven with first | others
      · exact .inr (.inl (by simpa using first))
      · exact .inl others

theorem optionMapM {k : α → Emit β} (gives' : β → List ValueId) (o : Option α)
    (each : ∀ a, o = some a → Sound s U (k a) gives') :
    Sound s U (o.mapM k) fun b => b.toList.flatMap gives' := by
  cases o with
  | none => exact pure (by simp)
  | some a => exact bind (each a rfl) fun b => pure fun v isGiven => .inl (by simpa using isGiven)

end Sound

/-- The same where a function accepts so many arguments. -/
structure Calling (s : Setup) (callee : FuncId) (n : Nat) (U : ValueId → Prop) (m : Emit α)
    (gives : α → List ValueId) : Prop where
  goes : ∀ {w w' : Work} {f f' : Frame} {g : Sketch} {a : α}, w.Accepts s callee n →
    f.Stands s w g →
    (∀ v, U v → f.draft.Has g v) → m f s w = .ok (a, f') w' →
    ∃ g', Frame.Goes s w f g w' f' g' ∧ ∀ v ∈ gives a, f'.draft.Has g' v

namespace Calling

variable {m : Emit α} {gives : α → List ValueId} {gives' : β → List ValueId}
  {callee : FuncId} {n : Nat}

theorem sound (h : Calling s callee n U m gives) (accepts : ∀ w : Work, w.Accepts s callee n) :
    Sound s U m gives := ⟨fun stands uses ran => h.goes (accepts _) stands uses ran⟩

/-- It goes on taking them. -/
theorem after {k : α → Emit β} (first : Sound s U m gives)
    (rest : ∀ a, Calling s callee n (fun v => v ∈ gives a ∨ U v) (k a) gives') :
    Calling s callee n U (m >>= k) gives' := by
  refine ⟨fun {w w' f f' g b} accepts stands uses ran => ?_⟩
  obtain ⟨a, f₁, w₁, ran₁, ran₂⟩ := of_bind_ok ran
  obtain ⟨g₁, goes₁, given₁⟩ := first.goes stands uses ran₁
  have uses₁ := goes₁.becomes.uses given₁ uses
  obtain ⟨g₂, goes₂, given₂⟩ := (rest a).goes (goes₁.proceeds.course.accepts accepts)
    (goes₁.stands stands) uses₁ ran₂
  exact ⟨g₂, goes₁.trans goes₂, given₂⟩

/-- After a part that gives no value. -/
theorem afterwards {k : α → Emit β} (first : Sound s U m fun _ => [])
    (rest : ∀ a, Calling s callee n U (k a) gives') : Calling s callee n U (m >>= k) gives' := by
  refine after first fun a => ⟨fun accepts stands uses ran => ?_⟩
  exact (rest a).goes accepts stands (fun v used => uses v (.inr used)) ran

theorem bind {k : α → Emit β} (first : Calling s callee n U m gives)
    (rest : ∀ a, Sound s (fun v => v ∈ gives a ∨ U v) (k a) gives') :
    Calling s callee n U (m >>= k) gives' := by
  refine ⟨fun {w w' f f' g b} accepts stands uses ran => ?_⟩
  obtain ⟨a, f₁, w₁, ran₁, ran₂⟩ := of_bind_ok ran
  obtain ⟨g₁, goes₁, given₁⟩ := first.goes accepts stands uses ran₁
  have uses₁ := goes₁.becomes.uses given₁ uses
  obtain ⟨g₂, goes₂, given₂⟩ := (rest a).goes (goes₁.stands stands) uses₁ ran₂
  exact ⟨g₂, goes₁.trans goes₂, given₂⟩

theorem discard (h : Calling s callee n U m gives) :
    Calling s callee n U (Functor.discard m : Emit PUnit) fun _ => [] := by
  change Calling s callee n U ((fun _ => PUnit.unit) <$> m) _
  rw [← bind_pure_comp]
  exact h.bind fun _ => .pure (by simp)

/-- A step of writing that calls the function. -/
theorem write {step : Writing α}
    (h : Writing.Sound U step gives fun callee' n' => callee' = callee ∧ n' = n) :
    Calling s callee n U (liftM step : Emit α) gives := by
  refine ⟨fun {w w' f f' g a} accepts stands uses ran => ?_⟩
  cases ran
  obtain ⟨g', goes, given, calls⟩ := h f.draft g stands.fits stands.isOpen uses
  refine ⟨g', ⟨.refl w, stands.sound, rfl, goes, fun callee' n' call => ?_⟩, given⟩
  refine (calls callee' n' call).imp_right ?_
  rintro ⟨rfl, rfl⟩
  exact accepts

end Calling

/-- A part that makes a function, and the rest, which calls it. -/
theorem Sound.bind_calling {m : Emit α} {k : α → Emit β} {gives' : β → List ValueId}
    (callee : α → FuncId) (n : Nat) (first : Sound s U m fun _ => [])
    (makes : ∀ {f f' : Frame} {w w' : Work} {a : α}, w.Sound s → m f s w = .ok (a, f') w' →
      w'.Accepts s (callee a) n)
    (rest : ∀ a, Calling s (callee a) n U (k a) gives') : Sound s U (m >>= k) gives' := by
  refine ⟨fun {w w' f f' g b} stands uses ran => ?_⟩
  obtain ⟨a, f₁, w₁, ran₁, ran₂⟩ := of_bind_ok ran
  obtain ⟨g₁, goes₁, _⟩ := first.goes stands uses ran₁
  obtain ⟨g₂, goes₂, given₂⟩ := (rest a).goes (makes stands.sound ran₁) (goes₁.stands stands)
    (fun v used => goes₁.becomes.keeps v (uses v used)) ran₂
  exact ⟨g₂, goes₁.trans goes₂, given₂⟩

end Emit

/-! ## Leaving blocks -/

/-- The block in which the body is written was left. -/
structure Frame.Pauses (s : Setup) (w : Work) (f : Frame) (g : Sketch) : Prop where
  sound : w.Sound s
  grounded : f.Grounded w
  declares : f.scope.Declares s.program
  typed : f.scope.Typed s w
  fits : f.draft.Fits g
  closed : f.draft.isClosed = true

namespace Frame

variable {s : Setup} {w w' w'' : Work} {f f' f'' : Frame} {g g' g'' : Sketch} {b : BlockId}

/-- The frame with a step of writing done. -/
def wrote {α : Type} (f : Frame) (step : Writing α) : Frame :=
  { f with draft := (step.run f.draft).2 }

theorem Stands.close (h : f.Stands s w g) {e : Exit} (uses : ∀ v ∈ e.operands, f.draft.Has g v)
    (leads : ∀ t ∈ e.targets, t.raw < f.draft.blocks.size ∧ ∀ v, g.given t v → f.draft.Has g v) :
    (f.wrote (Draft.close e)).Pauses s w g := by
  obtain ⟨b, here⟩ := h.isOpen
  obtain ⟨k, there, _⟩ := here.block
  constructor
  · exact h.sound
  · exact h.grounded.of_env rfl
  · exact h.declares
  · exact h.typed
  · simp only [wrote, here.close]
    exact h.fits.close here e uses leads
  · simp only [wrote, here.close, Draft.isClosed, here.here, Option.bind_some]
    simp [Array.getElem?_modify, there]

theorem Pauses.enter (h : f.Pauses s w g) (waits : g.pending b)
    (holds : ∀ v, f.Uses v → g.given b v) :
    (f.wrote (Draft.moveTo b)).Stands s w (g.without b) := by
  constructor
  · exact h.sound
  · exact h.grounded.of_env rfl
  · exact h.declares
  · exact h.typed
  · exact h.fits.enter h.closed waits
  · exact ⟨b, h.fits.enter_open waits⟩
  · intro v uses
    exact (h.fits.has_enter waits).mpr (holds v (uses.of_same rfl rfl rfl))

theorem Pauses.has_enter (h : f.Pauses s w g) (waits : g.pending b) {v : ValueId} :
    (f.wrote (Draft.moveTo b)).draft.Has (g.without b) v ↔ g.given b v :=
  h.fits.has_enter waits

/-! ## Statements -/

/-- Statements were written; they may have left the block. -/
structure Flowed (s : Setup) (w : Work) (f : Frame) (g : Sketch) (w' : Work) (f' : Frame)
    (g' : Sketch) : Prop where
  proceeds : Proceeds s w w'
  sound : w'.Sound s
  sameBody : f.SameBody f'
  receiver : f'.receiver = f.receiver
  env : f'.env = f.env
  declares : f'.scope.Declares s.program
  typed : f'.scope.Typed s w'
  grown : f.draft.Grown g f'.draft g'
  calls : f.CallsMore s w' f'
  pending : g'.pending = g.pending
  fits : f'.draft.Fits g'
  ends : f'.draft.isClosed = true ∨ f'.draft.IsOpen ∧
    (∀ v, f.draft.Has g v → f'.draft.Has g' v) ∧ ∀ v, f'.Uses v → f'.draft.Has g' v

theorem Goes.flowed (h : Goes s w f g w' f' g') (stands : f.Stands s w g) :
    Flowed s w f g w' f' g' where
  proceeds := h.proceeds
  sound := h.sound
  sameBody := h.sameBody
  receiver := h.receiver
  env := h.env
  declares := (h.stands stands).declares
  typed := (h.stands stands).typed
  grown := h.becomes.grown
  calls := h.calls
  pending := h.becomes.pending
  fits := h.becomes.fits
  ends := .inr ⟨h.becomes.isOpen, h.becomes.keeps, (h.stands stands).holds⟩

namespace Flowed

theorem later (h : Flowed s w f g w' f' g') : Later s w w' := h.proceeds.later

theorem grounded (h : Flowed s w f g w' f' g') (before : f.Grounded w) : f'.Grounded w' :=
  (before.later h.later).of_env h.env

/-- If the block was not left, the body goes on there. -/
theorem stands (h : Flowed s w f g w' f' g') (before : f.Grounded w)
    (isOpen : f'.draft.isClosed = false) : f'.Stands s w' g' := by
  rcases h.ends with closed | ⟨here, _, holds⟩
  · simp [isOpen] at closed
  · exact ⟨h.sound, h.grounded before, h.declares, h.typed, h.fits, here, holds⟩

theorem keeps (h : Flowed s w f g w' f' g') (isOpen : f'.draft.isClosed = false) {v : ValueId}
    (has : f.draft.Has g v) : f'.draft.Has g' v := by
  rcases h.ends with closed | ⟨_, keeps, _⟩
  · simp [isOpen] at closed
  · exact keeps v has

theorem pauses (h : Flowed s w f g w' f' g') (before : f.Grounded w)
    (closed : f'.draft.isClosed = true) : f'.Pauses s w' g' :=
  ⟨h.sound, h.grounded before, h.declares, h.typed, h.fits, closed⟩

theorem trans (h : Flowed s w f g w' f' g') (isOpen : f'.draft.isClosed = false)
    (h' : Flowed s w' f' g' w'' f'' g'') : Flowed s w f g w'' f'' g'' := by
  refine ⟨h.proceeds.trans h'.proceeds, h'.sound, h.sameBody.trans h'.sameBody,
    h'.receiver.trans h.receiver, h'.env.trans h.env, h'.declares, h'.typed, h.grown.trans h'.grown,
    h.calls.trans h'.proceeds.course h'.calls, h'.pending.trans h.pending, h'.fits, ?_⟩
  rcases h'.ends with closed | ⟨here, keeps, holds⟩
  · exact .inl closed
  · exact .inr ⟨here, fun v has => keeps v (h.keeps isOpen has), holds⟩

end Flowed

end Frame

namespace Emit

variable {s : Setup} {α β : Type} {U V : ValueId → Prop}

/-- What follows a step of writing goes on from the draft it leaves. -/
theorem of_write_ok {step : Writing α} {k : α → Emit β} {f f' : Frame} {w w' : Work} {b : β}
    (ran : (liftM step >>= k : Emit β) f s w = .ok (b, f') w') :
    k (step.run f.draft).1 (f.wrote step) s w = .ok (b, f') w' := ran

/-- Where the values that are used are there and the statements compile, the body goes on or leaves
the block; `how` says which of both, if it is known. -/
structure Flows (s : Setup) (U : ValueId → Prop) (m : Emit α) (how : Bool → Prop := fun _ => True) :
    Prop where
  flows : ∀ {w w' : Work} {f f' : Frame} {g : Sketch} {a : α}, f.Stands s w g →
    (∀ v, U v → f.draft.Has g v) → m f s w = .ok (a, f') w' →
    ∃ g', Frame.Flowed s w f g w' f' g' ∧ how f'.draft.isClosed

/-- The body goes on in the block. -/
abbrev Stays (s : Setup) (U : ValueId → Prop) (m : Emit α) : Prop := Flows s U m (· = false)

/-- The block is left. -/
abbrev Leaves (s : Setup) (U : ValueId → Prop) (m : Emit α) : Prop := Flows s U m (· = true)

variable {how : Bool → Prop}

theorem Sound.stays {m : Emit α} {gives : α → List ValueId} (h : Sound s U m gives) :
    Stays s U m := by
  refine ⟨fun stands uses ran => ?_⟩
  obtain ⟨g', goes, _⟩ := h.goes stands uses ran
  exact ⟨g', goes.flowed stands, goes.becomes.isOpen.isClosed⟩

/-- A part that stays in the block, and statements. -/
theorem Sound.bind_flows {m : Emit α} {k : α → Emit β} {gives : α → List ValueId}
    (first : Sound s U m gives) (rest : ∀ a, Flows s (fun v => v ∈ gives a ∨ U v) (k a) how) :
    Flows s U (m >>= k) how := by
  refine ⟨fun {w w' f f' g b} stands uses ran => ?_⟩
  obtain ⟨a, f₁, w₁, ran₁, ran₂⟩ := of_bind_ok ran
  obtain ⟨g₁, goes₁, given₁⟩ := first.goes stands uses ran₁
  have uses₁ := goes₁.becomes.uses given₁ uses
  obtain ⟨g₂, flowed, ends⟩ := (rest a).flows (goes₁.stands stands) uses₁ ran₂
  exact ⟨g₂, (goes₁.flowed stands).trans goes₁.becomes.isOpen.isClosed flowed, ends⟩

namespace Flows

variable {m : Emit α}

theorem mono (h : Flows s U m how) (more : ∀ v, U v → V v) : Flows s V m how :=
  ⟨fun stands uses ran => h.flows stands (fun v used => uses v (more v used)) ran⟩

theorem any (h : Flows s U m how) : Flows s U m := by
  refine ⟨fun stands uses ran => ?_⟩
  obtain ⟨g', flowed, _⟩ := h.flows stands uses ran
  exact ⟨g', flowed, trivial⟩

/-- Statements that stay in the block, and others. -/
theorem bind {k : α → Emit β} (first : Stays s U m) (rest : ∀ a, Flows s U (k a) how) :
    Flows s U (m >>= k) how := by
  refine ⟨fun {w w' f f' g b} stands uses ran => ?_⟩
  obtain ⟨a, f₁, w₁, ran₁, ran₂⟩ := of_bind_ok ran
  obtain ⟨g₁, flowed₁, isOpen⟩ := first.flows stands uses ran₁
  have uses₁ v (used : U v) := flowed₁.keeps isOpen (uses v used)
  obtain ⟨g₂, flowed₂, ends⟩ := (rest a).flows (flowed₁.stands stands.grounded isOpen) uses₁ ran₂
  exact ⟨g₂, flowed₁.trans isOpen flowed₂, ends⟩

theorem pure (a : α) : Stays s U (Pure.pure a) :=
  (Sound.pure (by simp) : Sound s U (Pure.pure a) fun _ => []).stays

theorem fail (cause : Cause) : Flows s U (liftM (Compile.fail cause : Compile α) : Emit α) how :=
  ⟨fun _ _ ran => by cases ran⟩

theorem get_bind {k : Frame → Emit α}
    (h : ∀ f : Frame, Flows s (fun v => f.Uses v ∨ U v) (k f) how) : Flows s U (get >>= k) how := by
  refine ⟨fun {w w' f f' g a} stands uses ran => ?_⟩
  refine (h f).flows stands ?_ ran
  rintro v (isUsed | isUsed)
  · exact stands.holds v isUsed
  · exact uses v isUsed

theorem ite {c : Prop} [Decidable c] {m' : Emit α} (h : Flows s U m how) (h' : Flows s U m' how) :
    Flows s U (if c then m else m') how := by
  split
  · exact h
  · exact h'

theorem locate {span : Span} (h : Flows s U m how) : Flows s U (Emit.locate span m) how :=
  ⟨fun stands uses ran => h.flows stands uses (of_locate_ok ran)⟩

/-- The program is the one that is compiled. -/
theorem program {k : Program → Emit α} (h : Flows s U (k s.program) how) :
    Flows s U (liftM Compile.program >>= k) how := ⟨fun stands uses ran => h.flows stands uses ran⟩

/-- A change of the frame after which it refers to nothing else. -/
theorem modify {change : Frame → Frame} (sameBody : ∀ f : Frame, f.SameBody (change f))
    (draft : ∀ f, (change f).draft = f.draft) (receiver : ∀ f, (change f).receiver = f.receiver)
    (env : ∀ f, (change f).env = f.env)
    (declares : ∀ f, f.scope.Declares s.program → (change f).scope.Declares s.program)
    (typed : ∀ f w, f.scope.Typed s w → (change f).scope.Typed s w)
    (uses : ∀ f v, (change f).Uses v → f.Uses v ∨ U v) :
    Stays s U (modify change : Emit PUnit) := by
  refine ⟨fun {w w' f f' g a} stands used ran => ?_⟩
  cases ran
  refine ⟨g, ⟨.refl w, stands.sound, sameBody f, receiver f, env f, declares f stands.declares,
    typed f w stands.typed, ?_, ?_, rfl, ?_, .inr ⟨?_, ?_, ?_⟩⟩, ?_⟩
  · rw [draft]
    exact .refl _ _
  · intro callee n calls
    rw [draft] at calls
    exact .inl calls
  · rw [draft]
    exact stands.fits
  · rw [draft]
    exact stands.isOpen
  · intro v has
    rwa [draft]
  · intro v isUsed
    rw [draft]
    rcases uses f v isUsed with old | given
    · exact stands.holds v old
    · exact used v given
  · rw [draft]
    exact stands.isOpen.isClosed

end Flows

end Emit

end ShapeCompiler
