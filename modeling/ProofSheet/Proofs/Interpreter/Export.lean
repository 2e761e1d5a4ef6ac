import ProofSheet.Proofs.Interpreter.Reachable
import ProofSheet.Proofs.Storage.Path
import ProofSheet.Proofs.Worksheet.Markup

/-!
Exports are all or nothing, over any files that are written whole or not at all.

* `Files`, `LawfulStorage`: what the paths of a world lead to, and the law of writing;
* `Document.FirstIncomplete`: the first derivation that lacks its formula;
* `Worksheet.page_cases`: the three things that can become of the page of a worksheet;
* `Interpreter.exportTo_cases`: the three that can become of the command;
* `Interpreter.exportTo_all_or_nothing`: **an export writes the whole page or nothing**, and says
  which.
-/

namespace ProofSheet

/-! ### Files that are written whole or not at all -/

/-- The files of a world: which one a path leads to, there already or not, and the bytes in it. -/
class Files (σ : Type) where
  File : Type
  file? : σ → String → Option File
  bytes? : σ → File → Option ByteArray

namespace Files

variable {σ : Type} [Files σ]

/-- No file differs between the worlds. -/
def Same (world world' : σ) : Prop :=
  ∀ file : File σ, bytes? world' file = bytes? world file

/-- The text fills the file that the path leads to, and no other file differs between the worlds. -/
def Replaced (path text : String) (world world' : σ) : Prop :=
  ∃ file : File σ, file? world path = some file ∧ bytes? world' file = some text.toUTF8 ∧
    ∀ other, other ≠ file → bytes? world' other = bytes? world other

end Files

/-- Writing replaces the whole file that the path leads to, or fails and changes no file. -/
class LawfulStorage (σ : Type) [Files σ] [Storage (StateM σ)] : Prop where
  write_whole : ∀ (path text : String) (world : σ),
    match (Storage.write path text : StateM σ (Except StorageFault Unit)).run world with
    | (.ok (), world') => Files.Replaced path text world world'
    | (.error _, world') => Files.Same world world'

namespace LawfulStorage

variable {σ : Type} [Files σ] [Storage (StateM σ)] [LawfulStorage σ] {path text : String}
  {world world' : σ}

lemma replaced_of_ok
    (h : (Storage.write path text : StateM σ (Except StorageFault Unit)).run world =
      (.ok (), world')) : Files.Replaced path text world world' := by
  have hwhole := write_whole path text world
  rw [h] at hwhole
  exact hwhole

lemma same_of_error {fault : StorageFault}
    (h : (Storage.write path text : StateM σ (Except StorageFault Unit)).run world =
      (.error fault, world')) : Files.Same world world' := by
  have hwhole := write_whole path text world
  rw [h] at hwhole
  exact hwhole

end LawfulStorage

namespace FileSystem

instance : Files FileSystem where
  File := Place
  file? fs path := (fs.filePlace path).toOption
  bytes? fs place := (fs.files.lookup place).map String.toUTF8

variable {fs : FileSystem} {path : String} {place : Place}

lemma replaced_replace (hplace : fs.filePlace path = .ok place) (text : String) :
    Files.Replaced path text fs { fs with files := replace place text fs.files } := by
  refine ⟨place, congrArg Except.toOption hplace, ?_, fun other hother => ?_⟩
  · exact congrArg (Option.map String.toUTF8)
      ((lookup_replace place place text fs.files).trans (if_pos rfl))
  · exact congrArg (Option.map String.toUTF8)
      ((lookup_replace place other text fs.files).trans (if_neg hother))

lemma run_write_of_filePlace_eq_ok (hplace : fs.filePlace path = .ok place) (text : String) :
    (Storage.write path text : StateM FileSystem (Except StorageFault Unit)).run fs =
      (.ok (), { fs with files := replace place text fs.files }) := by
  have hwrite : fs.write path text = .ok { fs with files := replace place text fs.files } :=
    write_eq_ok_iff.2 ⟨place, hplace, rfl⟩
  simp only [Storage.write, StateT.run, hwrite]

lemma run_write_of_filePlace_eq_error {fault : StorageFault}
    (hplace : fs.filePlace path = .error fault) (text : String) :
    (Storage.write path text : StateM FileSystem (Except StorageFault Unit)).run fs =
      (.error fault, fs) := by
  have hwrite : fs.write path text = .error fault := by
    rw [write, hplace]
    rfl
  simp only [Storage.write, StateT.run, hwrite]

instance : LawfulStorage FileSystem where
  write_whole path text fs := by
    cases hplace : fs.filePlace path with
    | error fault =>
        rw [run_write_of_filePlace_eq_error hplace]
        exact fun file => rfl
    | ok place =>
        rw [run_write_of_filePlace_eq_ok hplace]
        exact replaced_replace hplace text

end FileSystem

/-! ### What becomes of the page -/

namespace Document

variable {doc : Document} {s : DerivationStep}

/-- Every derivation has its formula. -/
def IsComplete (doc : Document) : Prop :=
  ∀ s, .derivation s ∈ doc.steps → s.formula ≠ none

/-- The derivation lacks its formula, and every derivation in front of it has one. -/
def FirstIncomplete (doc : Document) (s : DerivationStep) : Prop :=
  s.formula = none ∧ ∃ before after, doc.steps = before ++ .derivation s :: after ∧
    IsComplete ⟨before⟩

lemma isComplete_iff : doc.IsComplete ↔ ∀ step ∈ doc.steps, step.formula?.isNone = false := by
  constructor
  · intro h step hstep
    cases step with
    | hypothesis s => rfl
    | derivation s => exact Option.isNone_eq_false_iff.2 (Option.isSome_iff_ne_none.2 (h s hstep))
  · intro h s hs hformula
    have hsome : s.formula.isNone = false := h _ hs
    rw [hformula] at hsome
    cases hsome

lemma firstIncomplete?_eq_none_iff : doc.firstIncomplete? = none ↔ doc.IsComplete := by
  rw [firstIncomplete?, List.find?_eq_none, isComplete_iff]
  simp only [Bool.not_eq_true]

/-- The step that is found is a derivation, since a hypothesis always has a formula. -/
lemma firstIncomplete_of_firstIncomplete? {step : ProofStep}
    (h : doc.firstIncomplete? = some step) : ∃ s, step = .derivation s ∧ doc.FirstIncomplete s := by
  rw [firstIncomplete?, List.find?_eq_some_iff_append] at h
  obtain ⟨hnone, before, after, hsteps, hbefore⟩ := h
  cases step with
  | hypothesis s => cases hnone
  | derivation s =>
      refine ⟨s, rfl, Option.isNone_iff_eq_none.1 hnone, before, after, hsteps, ?_⟩
      rw [isComplete_iff]
      intro step hstep
      simpa using hbefore step hstep

lemma FirstIncomplete.not_isComplete (h : doc.FirstIncomplete s) : ¬ doc.IsComplete := by
  obtain ⟨hnone, before, after, hsteps, -⟩ := h
  intro hcomplete
  refine hcomplete s ?_ hnone
  rw [hsteps]
  exact List.mem_append_right _ List.mem_cons_self

end Document

namespace Worksheet

variable {config : ExportConfig} {sheet : Worksheet}

/-- The lines of all steps on the page, in order. -/
def pageBody (sheet : Worksheet) : String :=
  String.join (sheet.document.steps.map (·.pageLine))

/-- The lines of all steps inside the frame. -/
def framed (config : ExportConfig) (sheet : Worksheet) : String :=
  fillIn sheet.theoremLabel config.preamble ++ sheet.pageBody ++
    fillIn sheet.theoremLabel config.postamble

/-- **What becomes of the page** of a worksheet: without steps there is none, the first incomplete
step stops it wherever it stands, and otherwise it holds every step. -/
lemma page_cases (config : ExportConfig) (sheet : Worksheet) :
    (sheet.document.steps = [] ∧
      sheet.page config = .error (.emptyWorksheet sheet.theoremLabel)) ∨
    (∃ s, sheet.document.FirstIncomplete s ∧
      sheet.page config = .error (.incompleteStep sheet.theoremLabel s.step)) ∨
    (sheet.document.steps ≠ [] ∧ sheet.document.IsComplete ∧
      sheet.page config = .ok (sheet.framed config)) := by
  rw [page]
  split_ifs with hempty
  · exact .inl ⟨List.isEmpty_iff.1 hempty, rfl⟩
  · refine .inr ?_
    cases hfirst : sheet.document.firstIncomplete? with
    | some step =>
        obtain ⟨s, rfl, hs⟩ := Document.firstIncomplete_of_firstIncomplete? hfirst
        exact .inl ⟨s, hs, rfl⟩
    | none =>
        exact .inr ⟨mt List.isEmpty_iff.2 hempty, Document.firstIncomplete?_eq_none_iff.1 hfirst,
          rfl⟩

lemma page_of_steps_eq_nil (config : ExportConfig) (h : sheet.document.steps = []) :
    sheet.page config = .error (.emptyWorksheet sheet.theoremLabel) := by
  rw [page, h]
  rfl

lemma page_of_not_isComplete (config : ExportConfig) (h : ¬ sheet.document.IsComplete) :
    ∃ s, sheet.document.FirstIncomplete s ∧
      sheet.page config = .error (.incompleteStep sheet.theoremLabel s.step) := by
  obtain ⟨hempty, -⟩ | hfirst | ⟨-, hcomplete, -⟩ := sheet.page_cases config
  · refine absurd (fun s hs => ?_) h
    rw [hempty] at hs
    cases hs
  · exact hfirst
  · exact absurd hcomplete h

lemma page_eq_ok_iff {text : String} : sheet.page config = .ok text ↔
    (sheet.document.steps ≠ [] ∧ sheet.document.IsComplete) ∧ text = sheet.framed config := by
  obtain ⟨hempty, hpage⟩ | ⟨s, hs, hpage⟩ | ⟨hsteps, hcomplete, hpage⟩ := sheet.page_cases config
  · simp [hpage, hempty]
  · simp [hpage, hs.not_isComplete]
  · simp [hpage, hsteps, hcomplete, eq_comm]

end Worksheet

/-! ### What becomes of an export -/

namespace Interpreter

variable {σ : Type} [Storage (StateM σ)] {state : Interpreter} {sheet : Worksheet}

/-- **What becomes of an export command.** There is no page, and the storage is not asked; or the
storage is asked once to write the page, and refuses or does it. A message tells which. -/
lemma exportTo_cases (hsheet : state.worksheet = some sheet) (dir : Option String) (world : σ) :
    let config := state.exportConfig.into dir
    let path := config.outputPath sheet.theoremLabel
    let write : StateM σ (Except StorageFault Unit) := Storage.write path (sheet.framed config)
    let command : StateM σ (Answer × Interpreter) := state.execute (.sheet (.exportTo dir))
    (∃ e, sheet.page config = .error e ∧
      command.run world = (state.noteExport (.error e), world)) ∨
    (∃ fault world', sheet.page config = .ok (sheet.framed config) ∧
      write.run world = (.error fault, world') ∧
      command.run world = (state.noteExport (.error (.storage path fault)), world')) ∨
    (∃ world', sheet.page config = .ok (sheet.framed config) ∧
      write.run world = (.ok (), world') ∧
      command.run world = (state.noteExport (.ok path), world')) := by
  intro config path write command
  have hcommand : command.run world =
      let written := (writePage config sheet : StateM σ (Except ExportError String)).run world
      (state.noteExport written.1, written.2) := by
    simp only [command, execute, hsheet]
    rfl
  rw [hcommand, writePage]
  cases hpage : sheet.page config with
  | error e => exact .inl ⟨e, rfl, rfl⟩
  | ok text =>
      obtain ⟨-, rfl⟩ := Worksheet.page_eq_ok_iff.1 hpage
      refine .inr ?_
      generalize hwrite : write.run world = answered
      obtain ⟨written, world'⟩ := answered
      have hwritten : (Storage.write path (sheet.framed config) : StateM σ _).run world =
          (written, world') := hwrite
      dsimp only
      rw [StateT.run_bind, hwritten]
      cases written with
      | error fault => exact .inl ⟨fault, world', rfl, rfl, rfl⟩
      | ok => exact .inr ⟨world', rfl, rfl, rfl⟩

/-- **Exports are all or nothing**, in every state with a loaded worksheet, over every world whose
files are written whole or not at all, and whether or not a folder is given. The database, the
worksheet and the place of the pages stay as they are. An export that succeeds replaces one file,
the one that the path of the page leads to, by the frame with the line of every step in it, which
decode to the texts of the steps in document order. One that fails changes no file; without steps
that is the reason, and otherwise the first incomplete derivation is the reason, wherever it stands.
It succeeds exactly when there are steps, every derivation has its formula and the page can be
written. Either way it leaves one message, if there is room for it. -/
theorem exportTo_all_or_nothing [Files σ] [LawfulStorage σ] (hsheet : state.worksheet = some sheet)
    (dir : Option String) (world : σ) :
    let config := state.exportConfig.into dir
    let path := config.outputPath sheet.theoremLabel
    let page := sheet.framed config
    let stored := (Storage.write path page : StateM σ (Except StorageFault Unit)).run world
    let ran := (state.execute (.sheet (.exportTo dir)) : StateM σ (Answer × Interpreter)).run world
    (ran.1.2.database = state.database ∧ ran.1.2.worksheet = some sheet ∧
      ran.1.2.exportConfig = state.exportConfig) ∧
    (∀ outcome, ran.1.1 = .ok outcome → outcome = .exported path ∧
      ran.1.2.messages = state.messages.addInfo "Export" ("exported to " ++ path) ∧
      Files.Replaced path page world ran.2) ∧
    (∀ e, ran.1.1 = .error e → Files.Same world ran.2 ∧ ∃ reason, e = .exportFailed reason ∧
      ran.1.2.messages = state.messages.addError reason.code (some reason.message) none) ∧
    ((∃ outcome, ran.1.1 = .ok outcome) ↔
      sheet.document.steps ≠ [] ∧ sheet.document.IsComplete ∧ stored.1 = .ok ()) ∧
    (sheet.document.steps = [] →
      ran.1.1 = .error (.exportFailed (.emptyWorksheet sheet.theoremLabel))) ∧
    (¬ sheet.document.IsComplete → ∃ s, sheet.document.FirstIncomplete s ∧
      ran.1.1 = .error (.exportFailed (.incompleteStep sheet.theoremLabel s.step))) ∧
    (sheet.document.steps ≠ [] → sheet.document.IsComplete → ∀ fault, stored.1 = .error fault →
      ran.1.1 = .error (.exportFailed (.storage path fault))) ∧
    Text.MarkupFree sheet.pageBody.toList ∧ Text.unescape sheet.pageBody.toList =
      (String.join (sheet.document.texts.map (· ++ "\n"))).toList := by
  intro config path page stored ran
  have hframe := And.intro (markupFree_pageLines sheet.document.steps)
    (unescape_pageLines sheet.document.steps)
  have hok : sheet.page config = .ok page ↔
      sheet.document.steps ≠ [] ∧ sheet.document.IsComplete :=
    Worksheet.page_eq_ok_iff.trans (and_iff_left rfl)
  obtain ⟨e, hpage, hran⟩ | ⟨fault, world', hpage, hstored, hran⟩ |
    ⟨world', hpage, hstored, hran⟩ := exportTo_cases hsheet dir world
  · -- there is no page, and the storage was not asked
    have hnot : ¬ (sheet.document.steps ≠ [] ∧ sheet.document.IsComplete) := by
      rw [← hok, hpage]
      nofun
    rw [show ran = (state.noteExport (.error e), world) from hran]
    refine ⟨⟨rfl, hsheet, rfl⟩, nofun, ?_, ?_, fun h => ?_, fun h => ?_, ?_, hframe⟩
    · rintro _ ⟨⟩
      exact ⟨fun file => rfl, e, rfl, rfl⟩
    · exact iff_of_false nofun fun h => hnot ⟨h.1, h.2.1⟩
    · obtain rfl : e = .emptyWorksheet sheet.theoremLabel :=
        Except.error.inj (hpage.symm.trans (Worksheet.page_of_steps_eq_nil config h))
      rfl
    · obtain ⟨s, hs, hfirst⟩ := Worksheet.page_of_not_isComplete config h
      obtain rfl : e = .incompleteStep sheet.theoremLabel s.step :=
        Except.error.inj (hpage.symm.trans hfirst)
      exact ⟨s, hs, rfl⟩
    · exact fun hsteps hcomplete => absurd ⟨hsteps, hcomplete⟩ hnot
  · -- the storage refused the page
    obtain ⟨hsteps, hcomplete⟩ := hok.1 hpage
    have hsame : Files.Same world world' := LawfulStorage.same_of_error hstored
    replace hstored : stored = (.error fault, world') := hstored
    rw [show ran = (state.noteExport (.error (.storage path fault)), world') from hran, hstored]
    refine ⟨⟨rfl, hsheet, rfl⟩, nofun, ?_, ?_, fun h => absurd h hsteps,
      fun h => absurd hcomplete h, ?_, hframe⟩
    · rintro _ ⟨⟩
      exact ⟨hsame, _, rfl, rfl⟩
    · exact iff_of_false nofun fun h => nomatch h.2.2
    · rintro - - _ ⟨⟩
      rfl
  · -- the storage took the page
    obtain ⟨hsteps, hcomplete⟩ := hok.1 hpage
    have hreplaced : Files.Replaced path page world world' := LawfulStorage.replaced_of_ok hstored
    replace hstored : stored = (.ok (), world') := hstored
    rw [show ran = (state.noteExport (.ok path), world') from hran, hstored]
    refine ⟨⟨rfl, hsheet, rfl⟩, ?_, nofun, ?_, fun h => absurd h hsteps,
      fun h => absurd hcomplete h, nofun, hframe⟩
    · rintro _ ⟨⟩
      exact ⟨rfl, rfl, hreplaced⟩
    · exact iff_of_true ⟨_, rfl⟩ ⟨hsteps, hcomplete, rfl⟩

/-- A page that replaces another one in the folder `out`, and one for a folder that is not there. -/
theorem exportTo_out :
    ∃ state sheet, Reachable FileSystem state ∧ state.worksheet = some sheet ∧
      let fs : FileSystem := .ofPaths ["out"] [("out/t.html", "old"), ("note", "n")]
      let ran (dir : String) := (state.execute (.sheet (.exportTo (some dir))) :
        StateM FileSystem (Answer × Interpreter)).run fs
      ((ran "out").1.1 = .ok (.exported "out/t.html") ∧
        Files.Replaced "out/t.html" (sheet.framed {}) fs (ran "out").2) ∧
      (ran "away").1.1 = .error (.exportFailed (.storage "away/t.html" .notFound)) ∧
        Files.Same fs (ran "away").2 := by
  let sheet : Worksheet := ⟨.fresh "t", none, ⟨[
    .hypothesis ⟨"1", "t.1", ⟨["x"]⟩, .flat ParseTree.wff ⟨["x"]⟩, none, "h1::t.1 x", 1⟩,
    .derivation ⟨"2", ["1"], none, some ⟨["y"]⟩, "2:1: y", 1⟩]⟩⟩
  let text := "$( <MM> <PROOF_ASST> THEOREM=t\nh1:: x\n2:1: y\n$)"
  have hload : Worksheet.load {} text = .ok sheet := Except.eq_ok_of_toOption (by decide +kernel)
  have hstart : Reachable FileSystem {} := .start .refl {} {}
  let state : Interpreter := { worksheet := some sheet }
  have hstate : (({} : Interpreter).loadText text).2 = state := by
    rw [loadText, hload]
    rfl
  have hsteps : sheet.document.steps ≠ [] := by decide
  have hcomplete : sheet.document.IsComplete := Document.firstIncomplete?_eq_none_iff.1 (by decide)
  have hsheet : state.worksheet = some sheet := rfl
  refine ⟨state, sheet, hstate ▸ hstart.loadText text, hsheet, ?_⟩
  intro fs ran
  have hthere : fs.filePlace "out/t.html" = .ok ["out", "t.html"] :=
    Except.eq_ok_of_toOption (by decide +kernel)
  have hlocate : fs.locate? "away/t.html" = none := by decide +kernel
  have hnowhere : fs.filePlace "away/t.html" = .error .notFound := by
    rw [FileSystem.filePlace, hlocate]
  have hout : (state.exportConfig.into (some "out")).outputPath sheet.theoremLabel =
      "out/t.html" := (by decide : Path.join "out" ("t" ++ ".html") = "out/t.html")
  have haway : (state.exportConfig.into (some "away")).outputPath sheet.theoremLabel =
      "away/t.html" := (by decide : Path.join "away" ("t" ++ ".html") = "away/t.html")
  constructor
  · obtain ⟨-, hdone, -, hiff, -⟩ := exportTo_all_or_nothing hsheet (some "out") fs
    rw [hout] at hdone hiff
    obtain ⟨outcome, hran⟩ := hiff.2 ⟨hsteps, hcomplete, by
      rw [FileSystem.run_write_of_filePlace_eq_ok hthere]⟩
    obtain ⟨rfl, -, hreplaced⟩ := hdone outcome hran
    exact ⟨hran, hreplaced⟩
  · obtain ⟨-, -, hfailed, -, -, -, hrefused, -⟩ :=
      exportTo_all_or_nothing hsheet (some "away") fs
    rw [haway] at hrefused
    have hran := hrefused hsteps hcomplete .notFound (by
      rw [FileSystem.run_write_of_filePlace_eq_error hnowhere])
    exact ⟨hran, (hfailed _ hran).1⟩

end Interpreter

end ProofSheet
