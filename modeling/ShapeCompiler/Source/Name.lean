/-!
Names and places of a source program.

- `Names` numbers texts in order of their first use; the empty text comes first.
- `Span` is a range of the source text.
-/

namespace ShapeCompiler.Source

/-- A numbered text. -/
structure Name where
  raw : Nat
  deriving DecidableEq, Repr

/-- The empty text. -/
def Name.empty : Name := ⟨0⟩

/-- Texts in the order of their numbers. -/
structure Names where
  texts : Array String
  deriving DecidableEq, Repr

namespace Names

def fresh : Names := ⟨#[""]⟩

def size (ns : Names) : Nat := ns.texts.size

/-- The number of a text that has one. -/
def get? (ns : Names) (s : String) : Option Name :=
  (ns.texts.toList.findIdx? (· = s)).map Name.mk

/-- The number of a text, a new one unless it has one. -/
def intern (ns : Names) (s : String) : Name × Names :=
  match ns.get? s with
  | some n => (n, ns)
  | none => (⟨ns.size⟩, ⟨ns.texts.push s⟩)

/-- The text of a number; an unknown number stands for the empty text. -/
def lookup (ns : Names) (n : Name) : String := ns.texts.getD n.raw ""

end Names

/-- A range of the source text, the end left out. -/
structure Span where
  start : Nat
  stop : Nat
  deriving DecidableEq, Repr

namespace Span

/-- The place of what stands nowhere in the source. -/
def dummy : Span := ⟨0, 0⟩

def isDummy (s : Span) : Bool := s = dummy

/-- The least range that covers both. -/
def merge (a b : Span) : Span := ⟨min a.start b.start, max a.stop b.stop⟩

def rangeText (s : Span) : String := s!"{s.start}..{s.stop}"

def render (s : Span) : String := if s.isDummy then "<synthesized>" else s.rangeText

end Span

end ShapeCompiler.Source
