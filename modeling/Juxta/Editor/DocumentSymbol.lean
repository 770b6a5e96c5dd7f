/-
  Juxta/Editor/DocumentSymbol.lean
  ================================
  **The outline of a document** — the bindings of its program with their ranges.  A
  binding is shown at its keyword; one without a location is shown at the beginning of the
  document and spans as many characters as its name has.
-/
import Juxta.Editor.Position
import Juxta.Outline
import Juxta.Program

namespace Juxta.Editor

/-- A binding at its place in a document, with the bindings in it. -/
inductive DocumentSymbol where
  | mk (name : String) (kind : BindingKind) (detail : Option String) (range : Range)
      (children : List DocumentSymbol)

namespace DocumentSymbol

/-- The name that is shown. -/
def name : DocumentSymbol → String
  | .mk name _ _ _ _ => name

/-- Where the binding is shown. -/
def range : DocumentSymbol → Range
  | .mk _ _ _ range _ => range

/-- What is selected when the binding is chosen, which is all of its range. -/
def selectionRange (s : DocumentSymbol) : Range := s.range

/-- The range at which a binding is shown. -/
def rangeOf (lines : List (List Char)) (b : Binding) : Range :=
  match b.location with
  | some l => Range.ofLocation l lines
  | none => .onLine 0 0 b.name.length

mutual

/-- A binding of a document with the given lines. -/
def ofBinding (lines : List (List Char)) : Binding → DocumentSymbol
  | .mk name kind detail location children =>
    .mk name kind detail (rangeOf lines (.mk name kind detail location []))
      (ofBindings lines children)

/-- Bindings of a document with the given lines. -/
def ofBindings (lines : List (List Char)) : List Binding → List DocumentSymbol
  | [] => []
  | b :: bs => ofBinding lines b :: ofBindings lines bs

end

/-- The outline of a tree that was read from the given text. -/
def ofTree (text : String) (tree : Expr) : List DocumentSymbol :=
  ofBindings (Text.splitNewlines text.toList) tree.bindings

/-- The outline of a document, if it is a program. -/
def ofDocument (uri text : String) : Except TooManyDigits (Option (List DocumentSymbol)) :=
  match Program.parse text (some uri) with
  | .ok tree => .ok (some (ofTree text tree))
  | .error (.scan (.tooManyDigits e)) => .error e
  | .error _ => .ok none

end DocumentSymbol

end Juxta.Editor
