import ShapeCompiler.Compile.Infos

/-!
Which body a call needs.

A declaration is compiled once per `FunctionKey`: for each class it is called on, each form of its
parameters and each meaning of its type parameters.

- `Compile.specialize` works the key out from what is known of the arguments.
-/

namespace ShapeCompiler

open Source Code

/-- A key with the bindings under which its body is compiled. -/
structure Specialization where
  key : FunctionKey
  bindings : Bindings

/-- What a parameter is taken to be, given what is declared and what is passed. A parameter of
which nothing is declared takes what is known of the argument. -/
def paramInfo (declared arg : Info) : Info :=
  match declared, arg with
  | .any, arg => if arg.isNullish then .any else arg
  | .closure d, .closure a => .closure { a with sig := a.sig <|> d.sig }
  | .closure d, .lazy decl => if d.sig.isNone then .lazy decl else .closure d
  | declared, _ => declared

/-- Binds type parameters to arguments: each to the first whose parameter is declared as it. -/
def bindArguments (p : Program) (typeParams : List Name) (b : Bindings) :
    List (DeclId × Info) → Except ProgramError Bindings
  | [] => .ok b
  | (d, arg) :: rest => do
    let b := match p.types.get (← p.param d).ty with
      | .param t =>
        if t ∈ typeParams then (b.bind t arg (p.text t)).toOption.getD b else b
      | _ => b
    bindArguments p typeParams b rest

namespace Compile

/-- The parameters and type parameters of a body. -/
def formals : Subject → Compile (List DeclId × List Name)
  | .function d => do
    let f ← asks (·.function d)
    return (f.params, f.typeParams)
  | .implicitConstructor c => return (← asks (·.forwardedParams c), [])

/-- What parameters are taken to be, given the first arguments. -/
def paramInfos (b : Bindings) : List DeclId → List Info → Compile (List Info)
  | [], _ => return []
  | d :: rest, args => do
    let declared ← infoOf b (← asks (·.param d)).ty
    let info := args.head?.elim declared (paramInfo declared)
    return info :: (← paramInfos b rest args.tail)

/-- The body for a call with such arguments, on an instance of `cls` if it is a member. -/
def specialize (subject : Subject) (cls : Option DeclId) (args : List Info) :
    Compile Specialization := do
  let p ← program
  let site ← siteOf subject.decl
  let (params, typeParams) ← formals subject
  let label := p.label subject
  let bindings ← ask (bindArguments p typeParams (site.bindings.childFor label) (params.zip args))
  match typeParams.find? (!bindings.binds ·) with
  | some unbound => fail (.unboundParam label (p.text unbound))
  | none =>
    let infos ← paramInfos bindings params args
    return ⟨⟨subject, cls, infos, bindings.chainKey⟩, bindings⟩

end Compile

end ShapeCompiler
