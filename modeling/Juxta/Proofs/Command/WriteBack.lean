/-
  Juxta/Proofs/Command/WriteBack.lean
  ===================================
  **The bytes of a file that was written back** — whether a file is rewritten is decided by its
  text, in which every line end counts as one line feed, and what is written are the bytes of the
  canonical text.  A file that differs from its canonical text in nothing but carriage returns is
  therefore left as it is.

    * `Program.format_label`: the canonical text does not depend on the label of the program;
    * `Folder.eq_toUTF8_text_iff`: the bytes of a file are those of the text that is read from it
      if there is no carriage return in them;
    * `Command.bytes_written_iff`: the bytes after writing are those of the canonical text unless
      the file had this text already, carriage returns aside.
-/
import Juxta.Folder.Program
import Juxta.Proofs.Command.Modes
import Juxta.Proofs.Grammar.Fragment

namespace Juxta

/-- The canonical text of a program does not depend on its label. -/
theorem Program.format_label {c : Layout} {text out : String} {limits : Limits}
    {filename : Option String} (h : format c text filename limits = .ok out)
    (filename' : Option String) : format c text filename' limits = .ok out := by
  obtain ⟨e, hparse, hdepth, hexpressible, rfl⟩ := exists_tree_of_format h
  have htree : HasTree limits.reading text e := ⟨filename, e, hparse, rfl⟩
  obtain ⟨e', hparse', hsame⟩ :=
    readsFrom_of_fragment htree.fragment limits.reading (Nat.le_refl _) filename'
  exact format_eq_ok hparse' hsame hexpressible hdepth

/-! ### Bytes and texts -/

/-- Unified line ends are other line ends wherever there is a carriage return. -/
theorem Text.unifyNewlines_eq_self_iff {text : List Char} :
    unifyNewlines text = text ↔ '\r' ∉ text := by
  refine ⟨fun h => ?_, unifyNewlines_of_not_mem⟩
  rw [← h]
  exact not_mem_unifyNewlines text

namespace Folder

variable {folder : Folder} {path : Path} {place : List String} {bytes : ByteArray}
  {raw text : String}

/-- Bytes that have been decoded are the bytes of the text. -/
theorem eq_toUTF8 (hraw : String.fromUTF8? bytes = some raw) : bytes = raw.toUTF8 := by
  unfold String.fromUTF8? at hraw
  split at hraw
  · exact congrArg String.toUTF8 (Option.some.inj hraw)
  · cases hraw

/-- **The bytes are those of the text that is read from them**, if there is no carriage return. -/
theorem eq_toUTF8_text_iff (hraw : String.fromUTF8? bytes = some raw)
    (htext : text = .ofList (Text.unifyNewlines raw.toList)) :
    bytes = text.toUTF8 ↔ '\r' ∉ raw.toList := by
  rw [← Text.unifyNewlines_eq_self_iff]
  constructor
  · intro hbytes
    rw [hbytes, fromUTF8?_toUTF8] at hraw
    have hlist := congrArg String.toList htext
    rw [String.toList_ofList, Option.some.inj hraw] at hlist
    exact hlist.symm
  · intro hsame
    rw [htext, hsame, String.ofList_toList]
    exact eq_toUTF8 hraw

/-! ### Writing -/

theorem read_of_bytes (hplace : folder.locate path = .ok place)
    (hbytes : folder.file? place = some bytes) (hraw : String.fromUTF8? bytes = some raw) :
    folder.read path = .ok (.ofList (Text.unifyNewlines raw.toList)) := by
  rw [read_of_locate hplace, hbytes, Option.getD_some, decode, hraw]

/-- The bytes of a file that is rewritten if its text is another one. -/
theorem file?_written_back_iff (hplace : folder.locate path = .ok place)
    (hbytes : folder.file? place = some bytes) (hraw : String.fromUTF8? bytes = some raw)
    (htext : text = .ofList (Text.unifyNewlines raw.toList)) (out : String) :
    (if text = out then folder else folder.write path out).file? place = some out.toUTF8 ↔
      ¬ (text = out ∧ '\r' ∈ raw.toList) := by
  split
  · rename_i heq
    rw [← heq, hbytes, Option.some_inj, eq_toUTF8_text_iff hraw htext, and_iff_right rfl]
  · rename_i hne
    rw [file?_write hplace, if_pos rfl, hbytes]
    exact iff_of_true rfl fun h => hne h.1

/-- What is written to a file is the canonical text of the program in it. -/
theorem format_write {c : Layout} {out : String} (hread : folder.read path = .ok text)
    (h : Program.format c text none = .ok out) : folder.format c path true =
      .ok (out, if text = out then folder else folder.write path out) := by
  have hlabel := Program.format_label h (some path.text)
  rw [format, hread]
  change (do
      let formatted ← (Program.format c text (some path.text)).mapError FileFailure.program
      return (formatted, if true && formatted != text then folder.write path formatted
        else folder) : Except FileFailure (String × Folder)) = _
  rw [hlabel]
  by_cases heq : text = out
  · simp [heq, Except.mapError]
  · simp [heq, Ne.symm heq, Except.mapError]

end Folder

namespace Command

/-- **A file holds the canonical bytes after writing, unless only its line ends did not.** -/
theorem bytes_written_iff {folder : Folder} {path : Path} {place : List String}
    {bytes : ByteArray} {raw text : String} (hplace : folder.locate path = .ok place)
    (hbytes : folder.file? place = some bytes) (hraw : String.fromUTF8? bytes = some raw)
    (htext : text = .ofList (Text.unifyNewlines raw.toList)) :
    (∀ limits out, Program.format {} text none limits = .ok out →
      (FormatMode.print.Does path folder limits fun _ did => did.1.output = out) ∧
      FormatMode.write.Does path folder limits fun _ did => did.1.ending = .status 0 ∧
        (did.2.file? place = some out.toUTF8 ↔ ¬ (text = out ∧ '\r' ∈ raw.toList))) ∧
    ∀ c out, Program.format c text none = .ok out →
      ∃ folder', folder.format c path true = .ok (out, folder') ∧
        (folder'.file? place = some out.toUTF8 ↔ ¬ (text = out ∧ '\r' ∈ raw.toList)) := by
  have hread : folder.read path = .ok text := by
    rw [Folder.read_of_bytes hplace hbytes hraw, htext]
  have hafter := Folder.file?_written_back_iff hplace hbytes hraw htext
  refine ⟨fun limits out h => ⟨?_, ?_⟩, fun c out h => ?_⟩
  · refine FormatMode.does_of_respond hread fun style => ?_
    rw [FormatMode.respond_print h]
  · refine (FormatMode.does_write hread h).imp fun style did ⟨hending, _, hfolder⟩ => ?_
    rw [hfolder]
    exact ⟨hending, hafter out⟩
  · exact ⟨_, Folder.format_write hread h, hafter out⟩

/-- Of two files with carriage returns one has a blank too much, and is rewritten; the other one is
    canonical but for its line ends, and keeps its bytes. -/
theorem not_bytes_written_lineEnds :
    ∃ folder : Folder, folder.files = [(["p"], "f x\r\n".toUTF8), (["q"], "f  x\r\n".toUTF8)] ∧
      (run {} folder .empty (FormatMode.print.arguments "p")).1.output = "f x\n" ∧
      (run {} folder .empty (FormatMode.write.arguments "p")).1.ending = .status 0 ∧
      (run {} folder .empty (FormatMode.write.arguments "p")).2.file? ["p"] ≠
        some "f x\n".toUTF8 ∧
      (∃ folder', folder.format {} (.ofText "p") true = .ok ("f x\n", folder') ∧
        folder'.file? ["p"] ≠ some "f x\n".toUTF8) ∧
      (run {} folder .empty (FormatMode.write.arguments "q")).1.ending = .status 0 ∧
      (run {} folder .empty (FormatMode.write.arguments "q")).2.file? ["q"] =
        some "f x\n".toUTF8 := by
  let folder : Folder := ⟨[(["p"], "f x\r\n".toUTF8), (["q"], "f  x\r\n".toUTF8)]⟩
  have hasks (mode : FormatMode) : Invocation.ofArguments (mode.arguments "p") =
      .ok ⟨.format mode, .file (.ofText "p")⟩ := FormatMode.ofArguments_arguments (by decide) mode
  have hasks' (mode : FormatMode) : Invocation.ofArguments (mode.arguments "q") =
      .ok ⟨.format mode, .file (.ofText "q")⟩ := FormatMode.ofArguments_arguments (by decide) mode
  have hplace : folder.locate (.ofText "p") = .ok ["p"] := by decide +kernel
  have hplace' : folder.locate (.ofText "q") = .ok ["q"] := by decide +kernel
  have htext : "f x\n" = .ofList (Text.unifyNewlines "f x\r\n".toList) := by decide +kernel
  have htext' : "f  x\n" = .ofList (Text.unifyNewlines "f  x\r\n".toList) := by decide +kernel
  have hformat : Program.format {} "f x\n" none {} = .ok "f x\n" := by decide +kernel
  have hformat' : Program.format {} "f  x\n" none {} = .ok "f x\n" := by decide +kernel
  obtain ⟨hrun, hlibrary⟩ := bytes_written_iff hplace rfl (Folder.fromUTF8?_toUTF8 _) htext
  obtain ⟨hrun', -⟩ := bytes_written_iff hplace' rfl (Folder.fromUTF8?_toUTF8 _) htext'
  obtain ⟨hprint, hwrite⟩ := hrun {} _ hformat
  obtain ⟨hending, hkept⟩ := hwrite {} .empty _ (hasks .write)
  obtain ⟨hending', hcanonical⟩ := (hrun' {} _ hformat').2 {} .empty _ (hasks' .write)
  obtain ⟨folder', hfolder', hkept'⟩ := hlibrary {} _ hformat
  refine ⟨folder, rfl, hprint {} .empty _ (hasks .print), hending, ?_, ⟨folder', hfolder', ?_⟩,
    hending', ?_⟩
  · exact hkept.not.mpr (not_not_intro ⟨rfl, by decide⟩)
  · exact hkept'.not.mpr (not_not_intro ⟨rfl, by decide⟩)
  · exact hcanonical.mpr fun h => absurd h.1 (by decide)

end Command

end Juxta
