/-
  Juxta/Proofs/Command/Modes.lean
  ===============================
  **The modes of the formatter** — the canonical text of a file is printed, compared with the
  file, shown in a diff or written back, and every mode has its own way to it.

    * `FormatMode.ofArguments_arguments`: each mode is asked for by its option;
    * `FormatMode.Does` says what a mode does with a file, however it is asked for, and
      `ModesAgree` what all of them do with a file that has a canonical text;
    * `format_modes_agree`: the modes agree about what is canonical and what is no program, and
      only the file that is written changes.
-/
import Juxta.Command.Run
import Juxta.Proofs.Editor.Answers
import Juxta.Proofs.Folder.Writing
import Juxta.Proofs.Layout.Returns

namespace Juxta.Command

/-! ### Asking for a mode -/

namespace Signature

variable {arg name : String} {args : List String} {role : Role} {roles : List (String × Role)}

/-- An argument that does not begin with a dash is an operand. -/
theorem classify_of_head (s : Signature) (h : arg.toList.head? ≠ some '-') :
    s.classify arg = .ok .operand := by
  unfold classify
  split
  · rename_i hdash
    rw [hdash] at h
    exact absurd rfl h
  · rfl

theorem classifyAll_cons (s : Signature) (hdashes : arg ≠ "--")
    (harg : s.classify arg = .ok role) (hargs : s.classifyAll args = .ok roles) :
    s.classifyAll (arg :: args) = .ok ((arg, role) :: roles) := by
  rw [classifyAll, if_neg hdashes, harg, hargs]
  rfl

theorem classifyAll_name (s : Signature) (h : name.toList.head? ≠ some '-') :
    s.classifyAll [name] = .ok [(name, .operand)] := by
  refine s.classifyAll_cons ?_ (s.classify_of_head h) rfl
  rintro rfl
  exact h rfl

end Signature

namespace FormatMode

/-- The options that ask for a mode. -/
def flags : FormatMode → List (String × Flag)
  | .print => []
  | .check => [("--check", checkFlag)]
  | .diff => [("--diff", diffFlag)]
  | .write => [("--write", writeFlag)]

/-- The arguments that ask for the formatter in a mode. -/
def arguments (mode : FormatMode) (name : String) : List String :=
  "fmt" :: (mode.flags.map Prod.fst ++ [name])

variable {name : String} (h : name.toList.head? ≠ some '-') (mode : FormatMode)
include h

/-- The program as a whole leaves everything behind the name of the command to the command. -/
theorem read_program : programSignature.read (mode.arguments name) =
    .ok { operand := some (mode.arguments name) } := by
  have hroles : programSignature.classifyAll (mode.arguments name) =
      .ok (("fmt", .operand) :: (mode.flags.map (fun flag =>
        (flag.1, .option { flag := none, name := flag.1 })) ++ [(name, .operand)])) := by
    refine Signature.classifyAll_cons _ (by decide) rfl ?_
    cases mode with
    | print => exact Signature.classifyAll_name _ h
    | _ => exact Signature.classifyAll_cons _ (by decide) rfl (Signature.classifyAll_name _ h)
  rw [Signature.read, hroles]
  cases mode <;> rfl

theorem read_format : formatSignature.read (mode.flags.map Prod.fst ++ [name]) =
    .ok { flags := mode.flags.map fun flag => (flag.2, ""), operand := some [name] } := by
  have hroles : formatSignature.classifyAll (mode.flags.map Prod.fst ++ [name]) =
      .ok (mode.flags.map (fun flag =>
        (flag.1, .option { flag := some flag.2, name := flag.1 })) ++ [(name, .operand)]) := by
    cases mode with
    | print => exact Signature.classifyAll_name _ h
    | _ => exact Signature.classifyAll_cons _ (by decide) rfl (Signature.classifyAll_name _ h)
  rw [Signature.read, hroles]
  cases mode <;> rfl

/-- A mode is asked for by its option in front of a name that does not begin with a dash. -/
theorem ofArguments_arguments :
    Invocation.ofArguments (mode.arguments name) = .ok ⟨.format mode, .ofName name⟩ := by
  rw [Invocation.ofArguments, read_program h]
  change (do
      let own ← (formatSignature.read (mode.flags.map Prod.fst ++ [name])).mapError
        formatSignature.halted
      Invocation.refuseExtras ([] ++ own.extras)
      return (⟨Verb.format.action own, .ofName ((own.operand.getD []).headD "")⟩ :
        Invocation)) = _
  rw [read_format h]
  cases mode <;> rfl

end FormatMode

/-! ### Responses -/

theorem Source.file_ne (path : Path) : Source.file path ≠ .standardInput := nofun

namespace FormatMode

variable {style : Style} {source : Source} {text out : String} {limits : Limits}

theorem respond_print (h : Program.format {} text none limits = .ok out) :
    respond style source text .print limits = { output := out } := by
  rw [respond, h]
  rfl

theorem respond_check (h : Program.format {} text none limits = .ok out) :
    respond style source text .check limits =
      if text = out then { output := announce style .green "Already formatted:" source.label }
      else { ending := .status 1,
             output := announce style .yellow "Would reformat:" source.label } := by
  simp only [respond, Program.isFormatted_of_format h, Outcome.ofResult, beq_iff_eq]

theorem respond_diff (h : Program.format {} text none limits = .ok out) :
    respond style source text .diff limits =
      if text = out then {}
      else { ending := .status 1, output := Diff.unified source.label text out } := by
  rw [respond, Program.diff_of_format h]
  by_cases heq : text = out
  · rw [if_pos heq, heq, beq_self_eq_true]
    rfl
  · have hdiff : Diff.unified source.label text out ≠ "" := mt Diff.eq_of_unified_eq_empty heq
    rw [if_neg heq, if_neg (by rwa [beq_iff_eq])]
    simp [Outcome.ofResult, hdiff]

theorem respond_write (h : Program.format {} text none limits = .ok out)
    (hsource : source ≠ .standardInput) :
    respond style source text .write limits =
      if text = out then {}
      else { output := announce style .green "Formatted:" source.label, written := some out } := by
  rw [respond, h]
  simp only [if_neg hsource, Outcome.ofResult, beq_iff_eq]

/-- All modes fail alike, but for one that has no file to write. -/
theorem respond_of_error {failure : Failure}
    (h : Program.format {} text none limits = .error failure) {mode : FormatMode}
    (hsource : mode = .write → source ≠ .standardInput) :
    respond style source text mode limits = .ofFailure style failure := by
  have hcheck : Program.isFormatted {} text limits = .error failure := by
    rw [Program.isFormatted, h]
    rfl
  have hdiff (name : String) : Program.diff {} name text limits = .error failure := by
    rw [Program.diff, h]
    rfl
  cases mode with
  | print => rw [respond, h]; rfl
  | check => rw [respond, hcheck]; rfl
  | diff => rw [respond, hdiff]; rfl
  | write => rw [respond, if_neg (hsource rfl), h]; rfl

/-! ### Runs -/

variable {mode : FormatMode} {path : Path} {folder : Folder}

/-- What running the formatter in a mode on a file does, whatever the style, the standard input and
    the spelling of the arguments. -/
def Does (mode : FormatMode) (path : Path) (folder : Folder) (limits : Limits)
    (did : Style → Outcome × Folder → Prop) : Prop :=
  ∀ style input args, Invocation.ofArguments args = .ok ⟨.format mode, .file path⟩ →
    did style (run style folder input args limits)

theorem does_of_respond {did : Style → Outcome × Folder → Prop}
    (hread : folder.read path = .ok text)
    (h : ∀ style, did style (respond style (.file path) text mode limits,
      (respond style (.file path) text mode limits).applyTo (.file path) folder)) :
    mode.Does path folder limits did := by
  intro style input args hargs
  have hrun : run style folder input args limits =
      (respond style (.file path) text mode limits,
        (respond style (.file path) text mode limits).applyTo (.file path) folder) := by
    rw [run, hargs]
    simp only [Source.read, hread]
    rfl
  rw [hrun]
  exact h style

theorem Does.imp {did did' : Style → Outcome × Folder → Prop}
    (h : mode.Does path folder limits did) (himp : ∀ style result, did style result →
      did' style result) : mode.Does path folder limits did' :=
  fun style input args hargs => himp style _ (h style input args hargs)

theorem does_write (hread : folder.read path = .ok text)
    (h : Program.format {} text none limits = .ok out) :
    FormatMode.write.Does path folder limits fun _ did =>
      did.1.ending = .status 0 ∧ did.1.errors = "" ∧
        did.2 = if text = out then folder else folder.write path out := by
  refine does_of_respond hread fun style => ?_
  rw [respond_write h (Source.file_ne path)]
  split <;> exact ⟨rfl, rfl, rfl⟩

/-- A file that holds its canonical text is left alone in every mode. -/
theorem does_of_canonical (hread : folder.read path = .ok out)
    (h : Program.format {} out none limits = .ok out) :
    (FormatMode.check.Does path folder limits fun _ did => did.1.ending = .status 0) ∧
      (FormatMode.diff.Does path folder limits fun _ did =>
        did.1.ending = .status 0 ∧ did.1.output = "") ∧
      FormatMode.write.Does path folder limits fun _ did =>
        did.1.ending = .status 0 ∧ did.2 = folder := by
  refine ⟨does_of_respond hread fun style => ?_, does_of_respond hread fun style => ?_,
    (does_write hread h).imp fun style did hdid => ?_⟩
  · rw [respond_check h, if_pos rfl]
  · rw [respond_diff h, if_pos rfl]
    exact ⟨rfl, rfl⟩
  · obtain ⟨hending, -, hfolder⟩ := hdid
    exact ⟨hending, hfolder.trans (if_pos rfl)⟩

end FormatMode

/-- What the modes do with a file whose text has a canonical text. -/
structure ModesAgree (folder : Folder) (path : Path) (place : List String) (text out : String)
    (limits : Limits) : Prop where
  print : FormatMode.print.Does path folder limits fun _ did => did = ({ output := out }, folder)
  check : FormatMode.check.Does path folder limits fun _ did =>
    did.1.ending = .status (if text = out then 0 else 1) ∧ did.1.errors = "" ∧ did.2 = folder
  diff : FormatMode.diff.Does path folder limits fun _ did =>
    did.1.ending = .status (if text = out then 0 else 1) ∧ did.1.errors = "" ∧
      (did.1.output = "" ↔ text = out) ∧ did.2 = folder
  /-- The file changes if its text does, and no other one changes. -/
  write : FormatMode.write.Does path folder limits fun _ did =>
    did.1.ending = .status 0 ∧ did.1.errors = "" ∧ did.2.read path = .ok out ∧
      (did.2.file? place = folder.file? place ↔ text = out) ∧
      ∀ names ≠ place, did.2.file? names = folder.file? names
  /-- There is nothing left to do behind writing. -/
  settled : ∃ bound, ∀ limits' : Limits, bound ≤ limits'.reading → bound ≤ limits'.writing →
    FormatMode.write.Does path folder limits fun _ did =>
      (FormatMode.check.Does path did.2 limits' fun _ did' => did'.1.ending = .status 0) ∧
      (FormatMode.diff.Does path did.2 limits' fun _ did' =>
        did'.1.ending = .status 0 ∧ did'.1.output = "") ∧
      FormatMode.write.Does path did.2 limits' fun _ did' =>
        did'.1.ending = .status 0 ∧ did'.2 = did.2

section Modes

variable {folder : Folder} {path : Path} {place : List String} {text out : String}
  {limits : Limits}

section Written

variable (hplace : folder.locate path = .ok place) (hread : folder.read path = .ok text)
  (hreturn : '\r' ∉ out.toList)
include hplace hread hreturn

theorem read_written :
    (if text = out then folder else folder.write path out).read path = .ok out := by
  split
  · rename_i heq
    rw [← heq, hread]
  · exact Folder.read_write hplace hreturn

/-- The bytes of the file are others if its text is: both texts are read from them. -/
theorem file?_written_eq_iff :
    (if text = out then folder else folder.write path out).file? place = folder.file? place ↔
      text = out := by
  constructor
  · intro hsame
    have hwritten := read_written hplace hread hreturn
    have hplace' :
        (if text = out then folder else folder.write path out).locate path = .ok place := by
      split
      · exact hplace
      · rw [Folder.locate_write, hplace]
    rw [Folder.read_of_locate hplace', hsame, ← Folder.read_of_locate hplace, hread] at hwritten
    exact Except.ok.inj hwritten
  · intro heq
    rw [if_pos heq]

end Written

theorem modesAgree (hplace : folder.locate path = .ok place) (hread : folder.read path = .ok text)
    (hreturn : '\r' ∉ text.toList) (h : Program.format {} text none limits = .ok out) :
    ModesAgree folder path place text out limits := by
  have hreturn' : '\r' ∉ out.toList := Program.return_not_mem_of_format h hreturn
  constructor
  case print =>
    refine FormatMode.does_of_respond hread fun style => ?_
    rw [FormatMode.respond_print h]
    rfl
  case check =>
    refine FormatMode.does_of_respond hread fun style => ?_
    rw [FormatMode.respond_check h]
    split <;> exact ⟨rfl, rfl, rfl⟩
  case diff =>
    refine FormatMode.does_of_respond hread fun style => ?_
    rw [FormatMode.respond_diff h]
    split
    · rename_i heq
      exact ⟨rfl, rfl, iff_of_true rfl heq, rfl⟩
    · rename_i hne
      exact ⟨rfl, rfl, iff_of_false (mt Diff.eq_of_unified_eq_empty hne) hne, rfl⟩
  case write =>
    refine (FormatMode.does_write hread h).imp fun style did ⟨hending, herrors, hfolder⟩ => ?_
    rw [hfolder]
    refine ⟨hending, herrors, read_written hplace hread hreturn',
      file?_written_eq_iff hplace hread hreturn', fun names hnames => ?_⟩
    split
    · rfl
    · exact (Folder.file?_write hplace out names).trans (if_neg hnames)
  case settled =>
    obtain ⟨bound, hbound⟩ := Program.exists_format_formatted h
    refine ⟨bound, fun limits' hreading hwriting => ?_⟩
    refine (FormatMode.does_write hread h).imp fun style did ⟨_, _, hfolder⟩ => ?_
    rw [hfolder]
    exact FormatMode.does_of_canonical (read_written hplace hread hreturn')
      (hbound limits' hreading hwriting)

/-- A text that is not formatted has an error to show, unless a number in it is too long. -/
theorem does_of_error (hread : folder.read path = .ok text)
    (hshort : ¬ Text.HasLongInteger text.toList) {failure : Failure}
    (h : Program.format {} text none limits = .error failure) :
    ∃ message, ∀ mode : FormatMode, mode.Does path folder limits fun style did =>
      did = (.failed style message, folder) := by
  have hmessage : ∃ message, ∀ style, Outcome.ofFailure style failure = .failed style message := by
    cases failure with
    | lexical e => exact ⟨_, fun _ => rfl⟩
    | syntactic e => exact ⟨_, fun _ => rfl⟩
    | format e => exact ⟨_, fun _ => rfl⟩
    | tooManyDigits e =>
      exact absurd (Program.hasLongInteger_of_parseTo (Program.format_eq_tooManyDigits.mp h)) hshort
  obtain ⟨message, hmessage⟩ := hmessage
  refine ⟨message, fun mode => FormatMode.does_of_respond hread fun style => ?_⟩
  rw [FormatMode.respond_of_error h fun _ => Source.file_ne path, hmessage]
  rfl

end Modes

/-! ### What a run changes -/

theorem Outcome.written_ofFailure (style : Style) (failure : Failure) :
    (ofFailure style failure).written = none := by
  cases failure <;> rfl

theorem Outcome.written_ofResult {α : Type} (style : Style) (r : Except Failure α)
    {f : α → Outcome} (h : ∀ a, (f a).written = none) : (ofResult style r f).written = none := by
  cases r with
  | ok a => exact h a
  | error failure => exact written_ofFailure style failure

/-- Nothing is written back unless the formatter is asked to. -/
theorem Action.written_respond {action : Action} (h : action ≠ .format .write) (style : Style)
    (source : Source) (text : String) (limits : Limits) :
    (action.respond style source text limits).written = none := by
  cases action with
  | tokens => exact Outcome.written_ofResult style _ fun _ => rfl
  | tree => exact Outcome.written_ofResult style _ fun _ => rfl
  | check => exact Outcome.written_ofResult style _ fun _ => rfl
  | format mode =>
    cases mode with
    | print => exact Outcome.written_ofResult style _ fun _ => rfl
    | check =>
      refine Outcome.written_ofResult style _ fun formatted => ?_
      split <;> rfl
    | diff =>
      refine Outcome.written_ofResult style _ fun diff => ?_
      split <;> rfl
    | write => exact absurd rfl h

theorem Invocation.written_respond {i : Invocation} (h : i.action ≠ .format .write)
    (style : Style) (text : Except ReadError String) (limits : Limits) :
    (i.respond style text limits).written = none := by
  cases text with
  | ok text => exact Action.written_respond h style i.source text limits
  | error error =>
    cases error with
    | undecodable => rfl
    | lookup error => cases error <;> rfl

theorem Outcome.applyTo_of_written {o : Outcome} (h : o.written = none) (source : Source)
    (folder : Folder) : o.applyTo source folder = folder := by
  unfold applyTo
  rw [h]
  cases source <;> rfl

/-- **Only the file that is to be written changes.** -/
theorem of_file?_run_ne {style : Style} {folder : Folder} {input : ByteArray} {args : List String}
    {limits : Limits} {names : List String}
    (h : (run style folder input args limits).2.file? names ≠ folder.file? names) :
    ∃ path, Invocation.ofArguments args = .ok ⟨.format .write, .file path⟩ ∧
      folder.locate path = .ok names := by
  cases hargs : Invocation.ofArguments args with
  | error outcome =>
    rw [run, hargs] at h
    exact absurd rfl h
  | ok i =>
    obtain ⟨action, source⟩ := i
    rw [run, hargs] at h
    dsimp only at h
    cases source with
    | standardInput => exact absurd rfl h
    | file path =>
      by_cases haction : action = .format .write
      · refine ⟨path, by rw [haction], ?_⟩
        unfold Outcome.applyTo at h
        split at h
        · rename_i new hsource _
          cases hsource
          cases hplace : folder.locate path with
          | error error =>
            rw [Folder.write_of_not_locate hplace] at h
            exact absurd rfl h
          | ok place =>
            rw [Folder.file?_write hplace] at h
            split at h
            · rename_i hnames
              rw [hnames]
            · exact absurd rfl h
        · exact absurd rfl h
      · have hwritten := Invocation.written_respond (i := ⟨action, .file path⟩) haction style
          (Source.read folder input (.file path)) limits
        rw [Outcome.applyTo_of_written hwritten] at h
        exact absurd rfl h

/-- **The modes of the formatter agree**, for a file whose bytes are the UTF-8 form of a text,
    line ends aside, in which no number is too long.  If the text has a canonical text, it is
    printed; checking, comparing and writing succeed without a change exactly if the two are
    equal; and what is written is canonical, if enough levels are allowed.  Otherwise every mode
    fails with the same message and changes nothing.  No run changes a file but the one that
    is to be written. -/
theorem format_modes_agree {folder : Folder} {path : Path} {place : List String}
    {bytes : ByteArray} {raw text : String} (hplace : folder.locate path = .ok place)
    (hbytes : folder.file? place = some bytes) (hraw : String.fromUTF8? bytes = some raw)
    (htext : text = .ofList (Text.unifyNewlines raw.toList))
    (hshort : ¬ Text.HasLongInteger text.toList) :
    (∀ limits out, Program.format {} text none limits = .ok out →
      ModesAgree folder path place text out limits) ∧
    (∀ limits failure, Program.format {} text none limits = .error failure →
      ∃ message, ∀ mode : FormatMode, mode.Does path folder limits fun style did =>
        did = (.failed style message, folder)) ∧
    ∀ style folder input args limits names,
      (run style folder input args limits).2.file? names ≠ folder.file? names →
      ∃ path, Invocation.ofArguments args = .ok ⟨.format .write, .file path⟩ ∧
        folder.locate path = .ok names := by
  have hread : folder.read path = .ok text := by
    rw [Folder.read_of_locate hplace, hbytes, htext, Option.getD_some, Folder.decode, hraw]
  have hreturn : '\r' ∉ text.toList := by
    rw [htext, String.toList_ofList]
    exact Text.not_mem_unifyNewlines raw.toList
  refine ⟨fun limits out h => modesAgree hplace hread hreturn h,
    fun limits failure h => does_of_error hread hshort h, ?_⟩
  exact fun style folder input args limits names h => of_file?_run_ne h

/-- A file with two blanks and a carriage return too much, and a file that is no program. -/
theorem format_modes_agree_blanks :
    ∃ folder : Folder, folder.files = [(["p"], "f  x\r\n".toUTF8), (["q"], "f (".toUTF8)] ∧
      (run {} folder .empty (FormatMode.print.arguments "p")).1.output = "f x\n" ∧
      (run {} folder .empty (FormatMode.check.arguments "p")).1.ending = .status 1 ∧
      (run {} folder .empty (FormatMode.write.arguments "p")).2.file? ["p"] ≠
        folder.file? ["p"] ∧
      (run {} folder .empty (FormatMode.write.arguments "p")).2.read (.ofText "p") =
        .ok "f x\n" ∧
      ∃ message, ∀ mode : FormatMode,
        run {} folder .empty (mode.arguments "q") = (.failed {} message, folder) := by
  let folder : Folder := ⟨[(["p"], "f  x\r\n".toUTF8), (["q"], "f (".toUTF8)]⟩
  have hasks (mode : FormatMode) : Invocation.ofArguments (mode.arguments "p") =
      .ok ⟨.format mode, .file (.ofText "p")⟩ := FormatMode.ofArguments_arguments (by decide) mode
  have hasks' (mode : FormatMode) : Invocation.ofArguments (mode.arguments "q") =
      .ok ⟨.format mode, .file (.ofText "q")⟩ := FormatMode.ofArguments_arguments (by decide) mode
  have hplace : folder.locate (.ofText "p") = .ok ["p"] := by decide +kernel
  have hplace' : folder.locate (.ofText "q") = .ok ["q"] := by decide +kernel
  have hformat : Program.format {} "f  x\n" none {} = .ok "f x\n" := by decide +kernel
  have htext : "f  x\n" = .ofList (Text.unifyNewlines "f  x\r\n".toList) := by decide +kernel
  have htext' : "f (" = .ofList (Text.unifyNewlines "f (".toList) := by decide +kernel
  obtain ⟨hagree, -, -⟩ := format_modes_agree hplace rfl (Folder.fromUTF8?_toUTF8 _) htext
    (Text.not_hasLongInteger (by decide))
  obtain ⟨-, hfail, -⟩ := format_modes_agree hplace' rfl (Folder.fromUTF8?_toUTF8 _) htext'
    (Text.not_hasLongInteger (by decide))
  have hmodes := hagree {} _ hformat
  obtain ⟨-, -, hread, hsame, -⟩ := hmodes.write {} .empty _ (hasks .write)
  obtain ⟨hending, -, -⟩ := hmodes.check {} .empty _ (hasks .check)
  refine ⟨folder, rfl, ?_, ?_, ?_, hread, ?_⟩
  · rw [hmodes.print {} .empty _ (hasks .print)]
  · exact hending
  · exact fun h => absurd (hsame.mp h) (by decide)
  · have hrefused : (Program.format {} "f (" none {}).isOk = false := by decide +kernel
    cases hformat' : Program.format {} "f (" none {} with
    | ok out =>
      rw [hformat'] at hrefused
      cases hrefused
    | error failure =>
      obtain ⟨message, hmessage⟩ := hfail {} failure hformat'
      exact ⟨message, fun mode => hmessage mode {} .empty _ (hasks' mode)⟩

end Juxta.Command
