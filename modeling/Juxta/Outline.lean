/-
  Juxta/Outline.lean
  ==================
  **The bindings of a program** — every binding and every named function of a tree, in the
  order of the source, each under the nearest one that encloses it.  A binding counts as a
  function when its value is one.
-/
import Juxta.Expr

namespace Juxta

/-- What is bound. -/
inductive BindingKind where
  | function
  | variable
deriving DecidableEq, Repr

/-- A named binding and the bindings in it. -/
inductive Binding where
  | mk (name : String) (kind : BindingKind) (detail : Option String)
      (location : Option Location) (children : List Binding)

namespace Binding

/-- The name that is bound. -/
def name : Binding → String
  | .mk name _ _ _ _ => name

/-- What is bound. -/
def kind : Binding → BindingKind
  | .mk _ kind _ _ _ => kind

/-- A short description, shown beside the name. -/
def detail : Binding → Option String
  | .mk _ _ detail _ _ => detail

/-- Where the binding begins. -/
def location : Binding → Option Location
  | .mk _ _ _ location _ => location

/-- The bindings in the bound value. -/
def children : Binding → List Binding
  | .mk _ _ _ _ children => children

end Binding

namespace Expr

/-- The description of a function by its parameters. -/
def functionDetail (parameters : List String) : String :=
  "fn (" ++ String.intercalate ", " parameters ++ ")"

/-- The description of a function that is bound, if the value is one. -/
def valueDetail? : Expr → Option String
  | .function _ parameters _ _ => some (functionDetail parameters)
  | _ => none

/-- The kind of a binding with the given value. -/
def bindingKind : Expr → BindingKind
  | .function .. => .function
  | _ => .variable

/-- The description of a binding: that it is recursive, and the function that it binds. -/
def bindingDetail? (recursive : Bool) (value : Expr) : Option String :=
  if recursive then
    match value.valueDetail? with
    | some detail => some ("letrec " ++ detail)
    | none => some "letrec"
  else value.valueDetail?

/-- A function among the bindings: under its name if it has one. -/
def functionBindings (name : Option String) (parameters : List String)
    (location : Option Location) (children : List Binding) : List Binding :=
  match name with
  | none => children
  | some name => [.mk name .function (some (functionDetail parameters)) location children]

mutual

/-- The outermost bindings of a tree. -/
def bindings : Expr → List Binding
  | .literal _ _ | .symbol _ _ => []
  | .function name parameters body location =>
    functionBindings name parameters location (bindings body)
  | .block _ xs _ => bindingsAll xs
  | .assignment recursive name value location =>
    [.mk name value.bindingKind (value.bindingDetail? recursive) location (bindings value)]
  | .call f xs _ => bindings f ++ bindingsAll xs
  | .chain seed steps _ => bindings seed ++ bindingsSteps steps
  | .invocation target _ => bindings target

/-- The outermost bindings of trees. -/
def bindingsAll : List Expr → List Binding
  | [] => []
  | x :: xs => bindings x ++ bindingsAll xs

/-- The outermost bindings of steps. -/
def bindingsSteps : List Step → List Binding
  | [] => []
  | .mk p xs :: ss => bindings p ++ bindingsAll xs ++ bindingsSteps ss

end

end Expr

end Juxta
