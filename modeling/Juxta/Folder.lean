/-
  Juxta/Folder.lean
  =================
  **A folder of files** — the files that a command can see, each with its bytes, under
  their paths from the folder at hand.  A path is followed name by name: every name but
  the last has to be that of a folder, `..` leads back to the folder before, and of what
  is outside the folder at hand only the folders around it can be seen.  Names have at
  most 255 bytes and paths fewer than 4096.

  The text of a file is its bytes read as UTF-8, in which every carriage return, with the
  line feed after it if there is one, counts as one line feed.
-/
import Juxta.Folder.Path
import Juxta.Text.Lines

namespace Juxta

/-- Why a path does not lead to a file. -/
inductive LookupError where
  | missing
  /-- The path leads to a folder. -/
  | isFolder
  /-- A name before the last is that of a file. -/
  | notFolder
  /-- The path, or a name that is looked up in a folder, has too many bytes. -/
  | tooLong
deriving DecidableEq, Repr

/-- Why there is no text to be had. -/
inductive ReadError where
  | lookup (error : LookupError)
  /-- The bytes are no UTF-8. -/
  | undecodable

/-- Files and their bytes, by the names that lead to them. -/
structure Folder where
  files : List (List String × ByteArray) := []

namespace Folder

/-- The bytes of the file at the end of the given names. -/
def file? (f : Folder) (names : List String) : Option ByteArray := f.files.lookup names

/-- Whether the given names lead to a folder. -/
def isFolder (f : Folder) (names : List String) : Bool :=
  names.isEmpty || f.files.any fun (other, _) => names.isPrefixOf other && names != other

/-- The greatest number of bytes of a name. -/
def nameLimit : Nat := 255

/-- The least number of bytes that a path cannot have. -/
def pathLimit : Nat := 4096

/-- Whether a name has more bytes than a name can have. -/
def isLongName (name : String) : Bool := nameLimit < name.utf8ByteSize

/-- What names lead to outside the folder at hand: the folders around it, and nothing
    else. -/
def outside (names : List String) : LookupError :=
  match names.dropWhile (· == "..") with
  | [] => .isFolder
  | name :: _ => if isLongName name then .tooLong else .missing

/-- Follows names from the folder that `place` leads to, and gives the names without `..`
    that lead to the same place. -/
def follow (f : Folder) : (place names : List String) → Except LookupError (List String)
  | place, [] => .ok place
  | place, name :: names =>
    if f.isFolder place then
      if name = ".." then
        if place.isEmpty then .error (outside names) else f.follow place.dropLast names
      else if isLongName name then .error .tooLong
      else f.follow (place ++ [name]) names
    else if (f.file? place).isSome then .error .notFolder
    else .error .missing

/-- The names that lead to a file, for a path to it. -/
def locate (f : Folder) (p : Path) : Except LookupError (List String) := do
  if pathLimit ≤ p.text.utf8ByteSize then throw .tooLong
  if !p.root.isEmpty then throw (outside p.names)
  let place ← f.follow [] p.names
  if (f.file? place).isSome then return place
  else if f.isFolder place then throw .isFolder
  else throw .missing

/-- The text of bytes. -/
def decode (bytes : ByteArray) : Except ReadError String :=
  match String.fromUTF8? bytes with
  | some text => .ok (String.ofList (Text.unifyNewlines text.toList))
  | none => .error .undecodable

/-- The text of a file. -/
def read (f : Folder) (p : Path) : Except ReadError String := do
  let place ← (f.locate p).mapError .lookup
  decode ((f.file? place).getD .empty)

/-- The folder after a text was written to a file that it holds. -/
def write (f : Folder) (p : Path) (text : String) : Folder :=
  match f.locate p with
  | .ok place =>
    ⟨f.files.map fun (names, bytes) => (names, if names = place then text.toUTF8 else bytes)⟩
  | .error _ => f

end Folder

end Juxta
