/-
  Juxta/Folder/Path.lean
  ======================
  **Paths of files** — a path is a row of names that are taken one after another, from
  the folder at hand or from the root.  Empty names and the name `.` lead nowhere and are
  left out; `..` is kept, because what it leads to depends on the files.  Exactly two
  slashes in front are kept apart from one.
-/
namespace Juxta

/-- A path: the slashes in front of it, and the names between its other slashes. -/
structure Path where
  root : String
  names : List String
deriving DecidableEq, Repr

namespace Path

/-- The pieces of a text between its slashes; there is always at least one. -/
def splitSlashes : List Char → List (List Char)
  | [] => [[]]
  | c :: text =>
    if c = '/' then [] :: splitSlashes text
    else match splitSlashes text with
      | [] => [[c]]
      | name :: names => (c :: name) :: names

/-- Whether a piece of a path leads somewhere. -/
def isStep (name : List Char) : Bool := name != [] && name != ['.']

/-- The path that a text names. -/
def ofText (text : String) : Path :=
  let slashes := (text.toList.takeWhile (· == '/')).length
  let root := if slashes = 0 then "" else if slashes = 2 then "//" else "/"
  ⟨root, ((splitSlashes text.toList).filter isStep).map String.ofList⟩

/-- The path as it is shown; the path that leads nowhere is shown as a dot. -/
def text (p : Path) : String :=
  let shown := p.root ++ String.intercalate "/" p.names
  if shown.isEmpty then "." else shown

end Path

end Juxta
