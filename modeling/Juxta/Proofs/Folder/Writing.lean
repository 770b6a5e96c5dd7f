/-
  Juxta/Proofs/Folder/Writing.lean
  ================================
  **Writing to a file** — a text is written to the one file that a path leads to, and what any
  path leads to stays the same:

    * `Folder.file?_write`: the bytes of every file after a text was written;
    * `Folder.locate_write`: no path leads elsewhere than before;
    * `Folder.read_write`: what was written is read back, but for carriage returns.
-/
import Juxta.Folder

namespace Juxta

namespace Folder

variable {f : Folder} {p : Path} {place : List String} {text : String}

/-! ### The files after writing -/

/-- Entries that are changed under their own names are found under these. -/
theorem lookup_map {α β : Type} [BEq α] [LawfulBEq α] (change : α → β → β) (name : α)
    (entries : List (α × β)) :
    (entries.map fun entry => (entry.1, change entry.1 entry.2)).lookup name =
      (entries.lookup name).map (change name) := by
  induction entries with
  | nil => rfl
  | cons entry entries ih =>
    obtain ⟨other, content⟩ := entry
    rw [List.map_cons, List.lookup_cons, List.lookup_cons]
    cases h : name == other with
    | true =>
      obtain rfl := eq_of_beq h
      rfl
    | false => exact ih

theorem write_of_locate (h : f.locate p = .ok place) (text : String) : f.write p text =
    ⟨f.files.map fun entry => (entry.1, if entry.1 = place then text.toUTF8 else entry.2)⟩ := by
  rw [write, h]

theorem write_of_not_locate {error : LookupError} (h : f.locate p = .error error)
    (text : String) : f.write p text = f := by
  rw [write, h]

/-- **Only the file at the end of the path is changed**, and no file comes into being. -/
theorem file?_write (h : f.locate p = .ok place) (text : String) (names : List String) :
    (f.write p text).file? names =
      if names = place then (f.file? names).map fun _ => text.toUTF8 else f.file? names := by
  rw [write_of_locate h, file?, file?]
  dsimp only
  rw [lookup_map fun name content => if name = place then text.toUTF8 else content]
  split
  · rfl
  · exact Option.map_id'

theorem isSome_file?_write (f : Folder) (p : Path) (text : String) (names : List String) :
    ((f.write p text).file? names).isSome = (f.file? names).isSome := by
  cases h : f.locate p with
  | error error => rw [write_of_not_locate h]
  | ok place =>
    rw [file?_write h]
    split
    · exact Option.isSome_map
    · rfl

theorem isFolder_write (f : Folder) (p : Path) (text : String) (names : List String) :
    (f.write p text).isFolder names = f.isFolder names := by
  cases h : f.locate p with
  | error error => rw [write_of_not_locate h]
  | ok place =>
    rw [write_of_locate h, isFolder, isFolder]
    dsimp only
    rw [List.any_map]
    rfl

theorem follow_write (f : Folder) (p : Path) (text : String) (place names : List String) :
    (f.write p text).follow place names = f.follow place names := by
  induction names generalizing place with
  | nil => rfl
  | cons name names ih =>
    rw [follow, follow, isFolder_write, isSome_file?_write, ih, ih]

/-- **Every path leads where it did.** -/
theorem locate_write (f : Folder) (p : Path) (text : String) (q : Path) :
    (f.write p text).locate q = f.locate q := by
  simp only [locate, follow_write, isSome_file?_write, isFolder_write]

theorem isSome_file?_of_locate (h : f.locate p = .ok place) : (f.file? place).isSome := by
  unfold locate at h
  by_cases hlong : pathLimit ≤ p.text.utf8ByteSize
  · rw [if_pos hlong] at h
    cases h
  · by_cases hroot : (!p.root.isEmpty) = true
    · rw [if_neg hlong, if_pos hroot] at h
      cases h
    · rw [if_neg hlong, if_neg hroot] at h
      cases hfollow : f.follow [] p.names with
      | error error =>
        rw [hfollow] at h
        cases h
      | ok names =>
        rw [hfollow] at h
        by_cases hfile : (f.file? names).isSome = true
        · have hplace : Except.ok names = .ok place := (if_pos hfile).symm.trans h
          cases hplace
          exact hfile
        · have hother : (if f.isFolder names = true then Except.error LookupError.isFolder
              else .error .missing) = .ok place := (if_neg hfile).symm.trans h
          split at hother <;> cases hother

/-! ### The text after writing -/

theorem fromUTF8?_toUTF8 (text : String) : String.fromUTF8? text.toUTF8 = some text := by
  rw [String.fromUTF8?, String.toUTF8_eq_toByteArray, dif_pos text.isValidUTF8]
  rfl

theorem decode_toUTF8 (h : '\r' ∉ text.toList) : decode text.toUTF8 = .ok text := by
  rw [decode, fromUTF8?_toUTF8]
  dsimp only
  rw [Text.unifyNewlines_of_not_mem h, String.ofList_toList]

theorem read_of_locate (h : f.locate p = .ok place) :
    f.read p = decode ((f.file? place).getD .empty) := by
  rw [read, h]
  rfl

/-- **What was written is read back**, unless it has carriage returns. -/
theorem read_write (h : f.locate p = .ok place) (htext : '\r' ∉ text.toList) :
    (f.write p text).read p = .ok text := by
  obtain ⟨bytes, hbytes⟩ := Option.isSome_iff_exists.mp (isSome_file?_of_locate h)
  rw [read_of_locate (by rw [locate_write, h]), file?_write h, if_pos rfl, hbytes]
  exact decode_toUTF8 htext

end Folder

end Juxta
