import ShapeCompiler.Shape.Bindings

/-!
What names mean at a place of the program.

A local variable lives in a cell; the scope holds the pointer to it. Variables are also known by
their declarations, so that one hidden behind another of the same name can still be reached.
-/

namespace ShapeCompiler

open Source Code

/-- What a name refers to. -/
inductive Binding where
  /-- A variable in a cell. -/
  | cell (ptr : ValueId) (info : Info)
  /-- A variable of the whole program. -/
  | global (id : GlobalId) (info : Info)
  | function (decl : DeclId)
  | classDecl (decl : DeclId)
  deriving DecidableEq, Repr

/-- The binding means the same in every function body. -/
def Binding.isDeclaration : Binding → Bool
  | .cell _ _ => false
  | _ => true

structure Scope where
  bindings : Table Name Binding := {}
  /-- The declaration of the variable that a name refers to. -/
  declaredBy : Table Name DeclId := {}
  /-- All variables that can be reached, hidden or not. -/
  reachable : Table DeclId Binding := {}

namespace Scope

def empty : Scope := {}

/-- Binds a name to something without a declaration of its own. -/
def bind (s : Scope) (name : Name) (b : Binding) : Scope :=
  { s with bindings := s.bindings.insert name b, declaredBy := s.declaredBy.erase name }

/-- Binds a name to the cell of a declared variable. -/
def bindDeclared (s : Scope) (name : Name) (decl : DeclId) (ptr : ValueId) (info : Info) :
    Scope where
  bindings := s.bindings.insert name (.cell ptr info)
  declaredBy := s.declaredBy.insert name decl
  reachable := s.reachable.insert decl (.cell ptr info)

/-- Makes a variable reachable by its declaration only. -/
def bindHidden (s : Scope) (decl : DeclId) (ptr : ValueId) (info : Info) : Scope :=
  { s with reachable := s.reachable.insert decl (.cell ptr info) }

def lookup (s : Scope) (name : Name) : Option Binding := s.bindings.get? name

def declarationOf (s : Scope) (name : Name) : Option DeclId := s.declaredBy.get? name

def variableOf (s : Scope) (decl : DeclId) : Option Binding := s.reachable.get? decl

/-- What another function body sees: no cells. -/
def declarationView (s : Scope) : Scope :=
  { bindings := s.bindings.filter fun _ b => b.isDeclaration }

/-- Takes one name over, with its declaration. -/
def overlay (top : Scope) (base : Scope) (name : Name) (b : Binding) : Scope :=
  { base with
    bindings := base.bindings.insert name b
    declaredBy := match top.declarationOf name with
      | some d => base.declaredBy.insert name d
      | none => base.declaredBy.erase name }

/-- The scope laid over another, whose names it hides. -/
def onTopOf (top base : Scope) : Scope :=
  let merged := top.bindings.entries.foldl (fun s (n, b) => overlay top s n b) base
  { merged with
    reachable := top.reachable.entries.foldl (fun t (d, b) => t.insert d b) merged.reachable }

end Scope

end ShapeCompiler
