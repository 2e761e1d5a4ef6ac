import ProofSheet.Interpreter.Basic
import ProofSheet.Proofs.Refusal
import ProofSheet.Proofs.Storage.Path

/-!
Where the page of a worksheet goes. The label of a theorem is a word of the worksheet's text, and
it becomes a file name as it stands.

* `ExportConfig.isName_append`: the file name that a label without slashes becomes;
* `ExportConfig.outputPath_into_eq_iff`: the page lies directly below every folder exactly when
  the label has no slash;
* `Interpreter.of_writePage_eq_ok`: what an export that succeeds writes;
* `Interpreter.writePage_below_iff`: **when exports stay in the folder**.
-/

namespace ProofSheet

/-! ### The path of a page -/

namespace ExportConfig

variable {config : ExportConfig} {label : String}

lemma outputPath_into (config : ExportConfig) (dir label : String) :
    (config.into (some dir)).outputPath label = Path.join dir (label ++ config.fileType) :=
  rfl

/-- Behind the label stands the ending of the file, so that the name is never one of the names that
lead up or in place. -/
lemma isName_append (hfile : config.fileType = ".html") (hlabel : '/' ∉ label.toList) :
    Path.IsName (label ++ config.fileType) := by
  have hlong (word : String) (hword : word.toList.length < 5) : label ++ ".html" ≠ word := by
    rintro rfl
    rw [String.toList_append, List.length_append] at hword
    exact absurd hword (by simp)
  rw [hfile]
  refine ⟨hlong _ (by decide), hlong _ (by decide), hlong _ (by decide), ?_⟩
  rw [String.toList_append, List.mem_append, not_or]
  exact ⟨hlabel, by decide⟩

/-- A slash in the label shows: below the folder `.` the page does not lie directly. -/
lemma outputPath_into_ne (hlabel : '/' ∈ label.toList) {name : String} (hname : Path.IsName name) :
    (config.into (some ".")).outputPath label ≠ Path.join "." name := by
  have hslash : '/' ∈ (label ++ config.fileType).toList := by
    rw [String.toList_append]
    exact List.mem_append_left _ hlabel
  have hjoin : Path.join "." name = "./" ++ name := by
    rw [Path.join, if_neg hname.head?_ne]
    rfl
  rw [outputPath_into, hjoin, Path.join]
  intro heq
  split_ifs at heq with habsolute hdot
  · -- an absolute label does not begin with a dot
    rw [heq] at habsolute
    simp at habsolute
  · exact absurd hdot (by decide)
  · have hsame : "./" ++ (label ++ config.fileType) = "./" ++ name := heq
    rw [String.append_right_inj] at hsame
    exact hname.no_slash (hsame ▸ hslash)

/-- The page lies directly below every folder exactly when the label has no slash. -/
lemma outputPath_into_eq_iff (hfile : config.fileType = ".html") :
    '/' ∉ label.toList ↔ ∀ dir, ∃ name, Path.IsName name ∧
      (config.into (some dir)).outputPath label = Path.join dir name := by
  constructor
  · intro hlabel dir
    exact ⟨_, isName_append hfile hlabel, config.outputPath_into dir label⟩
  · intro hall hlabel
    obtain ⟨name, hname, hpath⟩ := hall "."
    exact outputPath_into_ne hlabel hname hpath

end ExportConfig

/-! ### The page that is written -/

namespace Interpreter

variable {config : ExportConfig} {sheet : Worksheet} {fs fs' : FileSystem} {path : String}

/-- An export answers the path of the page and writes the page there, or it changes nothing. -/
lemma run_writePage (config : ExportConfig) (sheet : Worksheet) (fs : FileSystem) :
    (writePage config sheet : StateM FileSystem (Except ExportError String)).run fs =
      match sheet.page config with
      | .error e => (.error e, fs)
      | .ok text =>
        match fs.write (config.outputPath sheet.theoremLabel) text with
        | .ok fs' => (.ok (config.outputPath sheet.theoremLabel), fs')
        | .error fault => (.error (.storage (config.outputPath sheet.theoremLabel) fault), fs) := by
  rw [writePage]
  cases sheet.page config with
  | error e => rfl
  | ok text =>
      have hwrite : (Storage.write (config.outputPath sheet.theoremLabel) text :
          StateM FileSystem (Except StorageFault Unit)).run fs =
          match fs.write (config.outputPath sheet.theoremLabel) text with
          | .ok fs' => (.ok (), fs')
          | .error fault => (.error fault, fs) := rfl
      simp only [StateT.run_bind, hwrite]
      cases fs.write (config.outputPath sheet.theoremLabel) text <;> rfl

/-- An export that succeeds wrote one page. -/
lemma of_writePage_eq_ok
    (h : (writePage config sheet : StateM FileSystem (Except ExportError String)).run fs =
      (.ok path, fs')) :
    ∃ text, sheet.page config = .ok text ∧ path = config.outputPath sheet.theoremLabel ∧
      fs.write path text = .ok fs' := by
  rw [run_writePage] at h
  cases hpage : sheet.page config with
  | error e =>
      rw [hpage] at h
      cases congrArg Prod.fst h
  | ok text =>
      simp only [hpage] at h
      cases hwrite : fs.write (config.outputPath sheet.theoremLabel) text with
      | error fault =>
          simp only [hwrite] at h
          cases congrArg Prod.fst h
      | ok written =>
          simp only [hwrite] at h
          obtain ⟨hpath, rfl⟩ := Prod.mk.inj h
          obtain rfl := Except.ok.inj hpath
          exact ⟨text, rfl, rfl, hwrite⟩

/-- **When exports stay in the folder.** The page of a worksheet lies directly below the folder it
is exported to, whichever folder that is, exactly when the label of the theorem has no slash. Then
an export that succeeds changes one file, the one with that name directly in the folder. -/
theorem writePage_below_iff (config : ExportConfig) (hfile : config.fileType = ".html")
    (sheet : Worksheet) :
    '/' ∉ sheet.theoremLabel.toList ↔ ∀ dir, ∃ name, Path.IsName name ∧
      (config.into (some dir)).outputPath sheet.theoremLabel = Path.join dir name ∧
      Path.components (Path.join dir name) = Path.components dir ++ [name] ∧
      Path.isAbsolute (Path.join dir name) = Path.isAbsolute dir ∧
      ∀ fs fs' path,
        (writePage (config.into (some dir)) sheet :
          StateM FileSystem (Except ExportError String)).run fs = (.ok path, fs') →
        ∃ folder text, sheet.page (config.into (some dir)) = .ok text ∧
          path = Path.join dir name ∧ fs.locate? dir = some folder ∧
          fs.isFolder folder = true ∧ fs'.folders = fs.folders ∧
          ∀ place, fs'.files.lookup place =
            if place = folder ++ [name] then some text else fs.files.lookup place := by
  rw [config.outputPath_into_eq_iff hfile]
  constructor
  · intro hall dir
    obtain ⟨name, hname, hpath⟩ := hall dir
    refine ⟨name, hname, hpath, Path.components_join hname, Path.isAbsolute_join hname,
      fun fs fs' path h => ?_⟩
    obtain ⟨text, htext, rfl, hwrite⟩ := of_writePage_eq_ok h
    rw [hpath] at hwrite
    obtain ⟨folder, hlocate, hfolder, -, rfl⟩ := (FileSystem.write_join_eq_ok_iff hname).1 hwrite
    exact ⟨folder, text, htext, hpath, hlocate, hfolder, rfl,
      fun place => FileSystem.lookup_replace (folder ++ [name]) place text fs.files⟩
  · intro hall dir
    obtain ⟨name, hname, hpath, -⟩ := hall dir
    exact ⟨name, hname, hpath⟩

/-- The page of a theorem `t` goes to one file directly in the folder `out`. -/
theorem writePage_below_out :
    ∃ sheet, Worksheet.load {} "$( <MM> <PROOF_ASST> THEOREM=t\n1:: y\n$)" = .ok sheet ∧
      ∃ name, Path.IsName name ∧
        (({} : ExportConfig).into (some "out")).outputPath sheet.theoremLabel =
          Path.join "out" name ∧
        Path.components (Path.join "out" name) = ["out", name] := by
  let sheet : Worksheet :=
    ⟨.fresh "t", none, ⟨[.derivation ⟨"1", [], none, some ⟨["y"]⟩, "1:: y", 1⟩]⟩⟩
  have hload : Worksheet.load {} "$( <MM> <PROOF_ASST> THEOREM=t\n1:: y\n$)" = .ok sheet :=
    Except.eq_ok_of_toOption (by decide +kernel)
  obtain ⟨name, hname, hpath, hcomponents, -⟩ :=
    (writePage_below_iff {} rfl sheet).1 (by decide) "out"
  exact ⟨sheet, hload, name, hname, hpath, hcomponents⟩

/-- Not every worksheet that is loaded is exported to the folder it should go to: here the label
of the theorem leads out of the folder. -/
theorem load_label_above :
    ¬ ∀ (db : Database) (text : String) (sheet : Worksheet) (dir : String),
      Worksheet.load db text = .ok sheet → ∃ name, Path.IsName name ∧
        (({} : ExportConfig).into (some dir)).outputPath sheet.theoremLabel =
          Path.join dir name := by
  intro hall
  have hload : Worksheet.load {} "$( <MM> <PROOF_ASST> THEOREM=../x\n1:: y\n$)" =
      .ok ⟨.fresh "../x", none, ⟨[.derivation ⟨"1", [], none, some ⟨["y"]⟩, "1:: y", 1⟩]⟩⟩ :=
    Except.eq_ok_of_toOption (by decide +kernel)
  obtain ⟨name, hname, hpath⟩ := hall _ _ _ "out" hload
  have hcomponents : Path.components (Path.join "out" name) = ["out"] ++ [name] :=
    Path.components_join hname
  have hescape : Path.components (Path.join "out" name) = ["out", "..", "x.html"] := by
    rw [← hpath]
    decide
  rw [hescape] at hcomponents
  exact absurd (congrArg List.length hcomponents) (by simp)

end Interpreter

end ProofSheet
