import ProofSheet.Proofs.Interpreter.History
import ProofSheet.Proofs.Reading.Symbols
import ProofSheet.Proofs.Worksheet.Loading

/-!
Where the math symbols in a state come from.

* `Database.mathSymbols`, `Worksheet.mathSymbols`: every math symbol that is stored, in formulas and
  in parse trees;
* `Worksheet.mathSymbols_of_load`: a worksheet that is loaded has the symbols of its draft and no
  others, whatever the database has;
* `Interpreter.Call.Typed`: a call whose texts have a property;
* `Database.mem_mathSymbols_run`, `Interpreter.mem_sheetSymbols_next`: **what is stored was there
  before or is brought**, by one command or by one call;
* `Interpreter.mem_mathSymbols_databaseAfter`, `Interpreter.mem_sheetSymbols_after`: the same for a
  run;
* `Interpreter.mathSymbols_of_typed_calls`: **which words are stored**, and when no dollar sign is
  among their characters.
-/

namespace ProofSheet

open Reading

/-! ### The symbols that are stored -/

/-- What is in the list of a value that may be missing. -/
lemma mem_elim_nil_iff {α β : Type} {value : Option α} {list : α → List β} {x : β} :
    x ∈ value.elim [] list ↔ ∃ a, value = some a ∧ x ∈ list a := by
  cases value with
  | none => exact iff_of_false List.not_mem_nil nofun
  | some a => simp

namespace ParseTree

mutual

/-- The symbols at the leaves of a tree. -/
def leaves : ParseTree → List String
  | leaf symbol => [symbol]
  | node _ children => childLeaves children

/-- The symbols at the leaves of some trees. -/
def childLeaves : List ParseTree → List String
  | [] => []
  | child :: rest => child.leaves ++ childLeaves rest

end

lemma leaves_flat (syntaxLabel : String) (formula : Formula) :
    (flat syntaxLabel formula).leaves = formula.symbols := by
  have hleaves (symbols : List String) : childLeaves (symbols.map leaf) = symbols := by
    induction symbols with
    | nil => rfl
    | cons symbol symbols ih => rw [List.map_cons, childLeaves, leaves, ih, List.singleton_append]
  rw [flat, leaves, hleaves]

end ParseTree

/-- The math symbols in a statement, in its formula and in its tree. -/
def Statement.mathSymbols (statement : Statement) : List String :=
  statement.formula.symbols ++ statement.tree.leaves

/-- The math symbols in a database: those that were declared, and those of the statements. -/
def Database.mathSymbols (db : Database) : List String :=
  db.symbols ++ db.statements.flatMap Statement.mathSymbols

/-- The math symbols in a step, in its formula and in its tree. -/
def ProofStep.mathSymbols (s : ProofStep) : List String :=
  symbolsOf s.formula? ++ s.hypothesis?.elim [] (·.tree.leaves)

/-- The math symbols in a worksheet. -/
def Worksheet.mathSymbols (sheet : Worksheet) : List String :=
  sheet.document.steps.flatMap ProofStep.mathSymbols

/-! ### The symbols of the database -/

namespace Database

variable {db db' : Database} {x : String}

lemma mem_mathSymbols_addStatement {label : String} {formula : Formula} {kind : StatementKind}
    (h : db.addStatement label formula kind = .ok db') (hx : x ∈ db'.mathSymbols) :
    x ∈ db.mathSymbols ∨ x ∈ formula.symbols := by
  obtain ⟨-, rfl⟩ := addStatement_eq_ok_iff.1 h
  simp only [mathSymbols, Statement.mathSymbols, Statement.tree, ParseTree.leaves_flat,
    List.flatMap_append, List.flatMap_singleton, List.mem_append] at hx ⊢
  tauto

lemma mem_mathSymbols_orStay {outcome : Except DatabaseError Database} {words : List String}
    (h : ∀ db', outcome = .ok db' → x ∈ db'.mathSymbols → x ∈ db.mathSymbols ∨ x ∈ words)
    (hx : x ∈ (db.orStay outcome).2.mathSymbols) : x ∈ db.mathSymbols ∨ x ∈ words := by
  cases outcome with
  | error e => exact .inl hx
  | ok db' => exact h db' rfl hx

lemma mem_mathSymbols_addSymbols {names : List String}
    (hx : x ∈ (db.addSymbols names).2.mathSymbols) : x ∈ db.mathSymbols ∨ x ∈ names := by
  induction names generalizing db with
  | nil => exact .inl hx
  | cons name names ih =>
      rw [addSymbols] at hx
      cases hadd : db.addSymbol name with
      | error e =>
          rw [hadd] at hx
          exact .inl hx
      | ok larger =>
          rw [hadd] at hx
          obtain ⟨-, rfl⟩ := addSymbol_eq_ok_iff.1 hadd
          obtain hx | hx := ih hx
          · simp only [mathSymbols, List.mem_append, List.mem_cons] at hx ⊢
            tauto
          · exact .inr (List.mem_cons_of_mem _ hx)

/-- What is stored after a command was stored before, or it is a symbol of the command. -/
lemma mem_mathSymbols_run {command : DatabaseCommand} (hx : x ∈ (command.run db).2.mathSymbols) :
    x ∈ db.mathSymbols ∨ x ∈ command.mathSymbols := by
  cases command with
  | symbols names => exact mem_mathSymbols_addSymbols hx
  | logHyp label formula =>
      exact mem_mathSymbols_orStay (fun _ => mem_mathSymbols_addStatement) hx
  | axiomatic label formula =>
      exact mem_mathSymbols_orStay (fun _ => mem_mathSymbols_addStatement) hx
  | provable label hyps formula =>
      refine mem_mathSymbols_orStay (fun db' h => ?_) hx
      obtain ⟨ids, -, h⟩ := addTheorem_eq_ok_iff.1 h
      exact mem_mathSymbols_addStatement h

end Database

/-! ### The symbols of the worksheet -/

namespace Worksheet

variable {db : Database} {target : Target} {doc : Document} {draft : StepDraft} {s : ProofStep}
  {sheet : Worksheet} {text : String} {x : String}

/-- Either way of finding a logical hypothesis leads to one with the formula. -/
lemma formula_of_bindHypothesis {theoremLabel : String} {ref : Option String} {formula : Formula}
    {hyp : Statement} (h : Resolution.bindHypothesis db theoremLabel doc ref formula = .ok hyp) :
    hyp.formula = formula := by
  obtain ⟨-, hfound⟩ := Resolution.bindHypothesis_eq_ok_iff.1 h
  cases ref with
  | none =>
      have hcond := List.find?_some (Resolution.matchFormula_eq_ok_iff.1 hfound)
      rw [Bool.and_eq_true, beq_iff_eq] at hcond
      exact hcond.1
  | some label => exact (Resolution.matchLabel_eq_ok_iff.1 hfound).2.2.2

/-- A step has the symbols of its draft and no others, even where its tree is taken from a logical
hypothesis of the database. -/
lemma mem_mathSymbols_stepOf (hdraft : draft.Legible) (hs : stepOf db target doc draft = .ok s) :
    x ∈ s.mathSymbols ↔ x ∈ draft.symbols := by
  cases draft with
  | derivation draft =>
      obtain rfl := stepOf_derivation_eq_ok_iff.1 hs
      exact List.mem_append.trans (or_iff_left (List.not_mem_nil))
  | hypothesis draft =>
      have hdraft : draft.Legible := hdraft
      obtain ⟨t, ht, rfl⟩ := stepOf_hypothesis_eq_ok_iff.1 hs
      obtain ⟨-, hformula⟩ := Resolution.fields_of_resolve ht
      have htree : t.tree = .flat ParseTree.wff t.formula := by
        cases target with
        | fresh theoremLabel =>
            obtain ⟨formula, label, -, -, rfl⟩ := Resolution.resolve_fresh_eq_ok_iff.1 ht
            rw [hdraft.tree]
            rfl
        | existing theoremLabel =>
            obtain ⟨formula, hyp, -, hbind, rfl⟩ := Resolution.resolve_existing_eq_ok_iff.1 ht
            exact congrArg (ParseTree.flat ParseTree.wff) (formula_of_bindHypothesis hbind)
      show x ∈ t.formula.symbols ++ t.tree.leaves ↔ x ∈ symbolsOf draft.formula
      rw [htree, ParseTree.leaves_flat, hformula, List.mem_append, or_self]
      rfl

/-- **A worksheet that is loaded has the symbols of its draft** and no others. -/
lemma mathSymbols_of_load (h : load db text = .ok sheet) :
    ∃ draft, WorksheetDraft.ofText? text = some draft ∧
      ∀ x ∈ sheet.mathSymbols, x ∈ draft.mathSymbols := by
  obtain ⟨draft, hread, h⟩ := load_eq_ok_iff.1 h
  obtain ⟨label, -, -, -, hsteps⟩ := ofDraft_eq_ok_iff.1 h
  have hlegible := (legible_of_ofText? hread).steps
  have hall := forall_mem_steps_of_loadSteps
    (P := fun s => ∀ x ∈ s.mathSymbols, x ∈ draft.mathSymbols)
    (fun doc d hd s hs x hx =>
      List.mem_flatMap.2 ⟨d, hd, (mem_mathSymbols_stepOf (hlegible d hd) hs).1 hx⟩)
    (fun s hs => (by cases hs)) hsteps
  refine ⟨draft, hread, fun x hx => ?_⟩
  obtain ⟨s, hs, hx⟩ := List.mem_flatMap.1 hx
  exact hall s hs x hx

lemma mathSymbols_renumber (sheet : Worksheet) (m : Renumbering) :
    (sheet.renumber m).mathSymbols = sheet.mathSymbols := by
  have hstep (s : ProofStep) : (s.renumber m).mathSymbols = s.mathSymbols := by
    have hcontent (s : ProofStep) : s.mathSymbols =
        symbolsOf s.content.2.1 ++ s.content.2.2.elim [] (·.1.leaves) := by
      cases s <;> rfl
    rw [hcontent, ProofStep.content_renumber, hcontent s]
  show (sheet.document.steps.map (·.renumber m)).flatMap ProofStep.mathSymbols = _
  rw [List.flatMap_map]
  simp only [hstep]
  rfl

end Worksheet

/-! ### The symbols of a state -/

namespace Interpreter

/-- The math symbols in the loaded worksheet. -/
def sheetSymbols (state : Interpreter) : List String :=
  state.worksheet.elim [] Worksheet.mathSymbols

/-- The math symbols in a state, in its database and in its worksheet. -/
def mathSymbols (state : Interpreter) : List String :=
  state.database.mathSymbols ++ state.sheetSymbols

variable {σ : Type} {x : String}

namespace Call

/-- The math symbols in the command that is called. -/
def commandSymbols (call : Call σ) : List String :=
  call.databaseCommand?.elim [] DatabaseCommand.mathSymbols

/-- The math symbols in the worksheet that a call gets hold of. -/
def draftSymbols [Storage (StateM σ)] (call : Call σ) : List String :=
  (call.text?.bind WorksheetDraft.ofText?).elim [] WorksheetDraft.mathSymbols

/-- The command that is called. -/
def command? : Call σ → Option Command
  | execute command _ => some command
  | loadText _ => none

/-- The call is typed, in texts with the property: its command is read from one, and it loads no
other. -/
def Typed [Storage (StateM σ)] (P : String → Prop) (call : Call σ) : Prop :=
  (∀ command ∈ call.command?, ∃ text, P text ∧ Command.ofText? text = some command) ∧
    ∀ text ∈ call.text?, P text

end Call

/-- What is stored after some calls was stored before, or it is a symbol of one of the commands. -/
lemma mem_mathSymbols_databaseAfter {db : Database} {calls : List (Call σ)}
    (hx : x ∈ (databaseAfter db calls).mathSymbols) :
    x ∈ db.mathSymbols ∨ ∃ call ∈ calls, x ∈ call.commandSymbols := by
  induction calls generalizing db with
  | nil => exact .inl hx
  | cons call calls ih =>
      rw [← List.singleton_append, databaseAfter_append] at hx
      obtain hx | ⟨later, hlater, hx⟩ := ih hx
      · have hone : x ∈ db.mathSymbols ∨ x ∈ call.commandSymbols := by
          rw [databaseAfter, List.filterMap_cons, List.filterMap_nil] at hx
          rw [Call.commandSymbols]
          cases hcommand : call.databaseCommand? with
          | none =>
              rw [hcommand] at hx
              exact .inl hx
          | some command =>
              rw [hcommand] at hx
              exact Database.mem_mathSymbols_run hx
        exact hone.imp_right fun hx => ⟨call, List.mem_cons_self, hx⟩
      · exact .inr ⟨later, List.mem_cons_of_mem _ hlater, hx⟩

lemma mathSymbols_renumbered (sheet : Worksheet) (calls : List (Call σ)) :
    (renumbered sheet calls).mathSymbols = sheet.mathSymbols := by
  rw [renumbered]
  induction calls.filterMap (·.renumbering?) generalizing sheet with
  | nil => rfl
  | cons m ms ih => rw [List.foldl_cons, ih, Worksheet.mathSymbols_renumber]

variable [Storage (StateM σ)] {P : String → Prop} {state : Interpreter} {call : Call σ}
  {calls : List (Call σ)}

section Run

variable {limits : MessageLimits} {config : ExportConfig} {db : Database}
  {sheet : Option Worksheet} {errors infos : List Message}

/-- **The step**: a symbol of the worksheet was there before the call, or the text that the call
gets hold of brought it. -/
lemma mem_sheetSymbols_next (h : state.Shows limits config db sheet errors infos)
    (hx : x ∈ (call.next state).sheetSymbols) : x ∈ state.sheetSymbols ∨ x ∈ call.draftSymbols := by
  obtain ⟨now, hnow, hx⟩ := mem_elim_nil_iff.1 hx
  cases htext : call.text? with
  | none =>
      rw [(h.next htext).worksheet, Option.map_eq_some_iff] at hnow
      obtain ⟨loaded, rfl, rfl⟩ := hnow
      rw [mathSymbols_renumbered] at hx
      exact .inl (mem_elim_nil_iff.2 ⟨loaded, h.worksheet, hx⟩)
  | some text =>
      rw [Call.next_of_text? htext, loadText] at hnow
      cases hload : Worksheet.load state.database text with
      | error e =>
          rw [hload] at hnow
          cases hnow
      | ok loaded =>
          rw [hload] at hnow
          obtain rfl : loaded = now := Option.some.inj hnow
          obtain ⟨draft, hread, hsymbols⟩ := Worksheet.mathSymbols_of_load hload
          refine .inr (mem_elim_nil_iff.2 ⟨draft, ?_, hsymbols x hx⟩)
          rw [htext, Option.bind_some, hread]

/-- **The run**: a symbol of the worksheet was there before the calls, or one of them brought it. -/
lemma mem_sheetSymbols_after (h : state.Shows limits config db sheet errors infos)
    (hx : x ∈ (after state calls).sheetSymbols) :
    x ∈ state.sheetSymbols ∨ ∃ call ∈ calls, x ∈ call.draftSymbols := by
  induction calls generalizing state db sheet errors infos with
  | nil => exact .inl hx
  | cons call calls ih =>
      obtain ⟨_, _, _, hnext⟩ := h.exists_after [call]
      obtain hx | ⟨later, hlater, hx⟩ := ih hnext hx
      · exact (mem_sheetSymbols_next h hx).imp_right fun hx => ⟨call, List.mem_cons_self, hx⟩
      · exact .inr ⟨later, List.mem_cons_of_mem _ hlater, hx⟩

end Run

/-- The state that a program starts in. -/
def started (limits : MessageLimits) (config : ExportConfig) : Interpreter :=
  { messages := { limits }, exportConfig := config }

section Typed

variable {limits : MessageLimits} {config : ExportConfig}

lemma mem_database_after (hx : x ∈ (after (started limits config) calls).database.mathSymbols) :
    ∃ call ∈ calls, x ∈ call.commandSymbols := by
  obtain ⟨_, _, _, h⟩ := (Shows.start {} limits config).exists_after calls
  have hdb : (after (started limits config) calls).database = databaseAfter {} calls := h.database
  rw [hdb] at hx
  exact (mem_mathSymbols_databaseAfter hx).resolve_left List.not_mem_nil

lemma mem_sheet_after (hx : x ∈ (after (started limits config) calls).sheetSymbols) :
    ∃ call ∈ calls, x ∈ call.draftSymbols :=
  (mem_sheetSymbols_after (Shows.start {} limits config) hx).resolve_left List.not_mem_nil

lemma exists_command_of_typed (h : call.Typed P) (hx : x ∈ call.commandSymbols) :
    ∃ text command, P text ∧ Command.ofText? text = some command ∧ x ∈ command.mathSymbols := by
  cases call with
  | loadText text => cases hx
  | execute command world =>
      obtain ⟨text, hP, hread⟩ := h.1 command rfl
      cases command with
      | database command => exact ⟨text, _, hP, hread, hx⟩
      | load path => cases hx
      | sheet command => cases hx

lemma exists_draft_of_typed (h : call.Typed P) (hx : x ∈ call.draftSymbols) :
    ∃ text draft, P text ∧ WorksheetDraft.ofText? text = some draft ∧ x ∈ draft.mathSymbols := by
  obtain ⟨draft, hdraft, hx⟩ := mem_elim_nil_iff.1 hx
  obtain ⟨text, htext, hread⟩ := Option.bind_eq_some_iff.1 hdraft
  exact ⟨text, draft, h.2 text htext, hread, hx⟩

/-- Every math symbol of commands can be declared. -/
lemma exists_typed_symbol (limits : MessageLimits) (config : ExportConfig) (world : σ)
    (hx : IsMathSymbol x) :
    ∃ call : Call σ, (call.Typed fun _ => True) ∧
      x ∈ (after (started limits config) [call]).database.mathSymbols := by
  refine ⟨.execute (.database (.symbols [x])) world, ⟨?_, nofun⟩, ?_⟩
  · rintro _ ⟨⟩
    exact ⟨_, trivial, ofText?_symbol hx⟩
  · exact List.mem_cons_self

variable (σ) in
/-- Every math symbol of worksheets is in one that the empty database accepts. -/
lemma exists_typed_sheet (limits : MessageLimits) (config : ExportConfig) (hx : IsSymbol x) :
    ∃ call : Call σ, (call.Typed fun _ => True) ∧
      x ∈ (after (started limits config) [call]).sheetSymbols := by
  obtain ⟨text, caret, hread⟩ := exists_ofText?_of_isSymbol hx
  refine ⟨.loadText text, ⟨nofun, fun _ _ => trivial⟩, ?_⟩
  have hload : Worksheet.load {} text = .ok ⟨.fresh "t", none, ⟨[.derivation
      (.ofFields "1" [] none (some ⟨[x, "y"]⟩))]⟩⟩ := by
    rw [Worksheet.load, hread]
    rfl
  have hsheet : (after (started limits config) [(.loadText text : Call σ)]).worksheet =
      some ⟨.fresh "t", none, ⟨[.derivation (.ofFields "1" [] none (some ⟨[x, "y"]⟩))]⟩⟩ := by
    show ((started limits config).loadText text).2.worksheet = _
    rw [loadText, show (started limits config).database = {} from rfl, hload]
  rw [sheetSymbols, hsheet]
  exact List.mem_cons_self

end Typed

/-- **Which words are math symbols, and which are stored.** The math symbols of worksheets are all
words that do not begin with a dollar sign, and those of commands are the ones among them without a
semicolon: dollar signs may stand behind the first character of either. Whatever calls are typed, a
database that began empty stores math symbols of commands and a worksheet those of worksheets, and
every one of these is stored after some calls. When every dollar sign in a text begins a word, no
symbol that is read from it holds one, and when that is so in all texts of some calls, none that is
stored after them does. -/
theorem mathSymbols_of_typed_calls (limits : MessageLimits) (config : ExportConfig) (world : σ) :
    (∀ x, (∃ text draft, WorksheetDraft.ofText? text = some draft ∧ x ∈ draft.mathSymbols) ↔
      IsSymbol x) ∧
    (∀ x, (∃ text command, Command.ofText? text = some command ∧ x ∈ command.mathSymbols) ↔
      IsSymbol x ∧ ';' ∉ x.toList) ∧
    (∀ x, (∃ calls : List (Call σ), (∀ call ∈ calls, call.Typed fun _ => True) ∧
      x ∈ (after (started limits config) calls).database.mathSymbols) ↔
        IsSymbol x ∧ ';' ∉ x.toList) ∧
    (∀ x, (∃ calls : List (Call σ), (∀ call ∈ calls, call.Typed fun _ => True) ∧
      x ∈ (after (started limits config) calls).sheetSymbols) ↔ IsSymbol x) ∧
    (∀ text, DollarsLead text →
      (∀ draft, WorksheetDraft.ofText? text = some draft →
        ∀ x ∈ draft.mathSymbols, '$' ∉ x.toList) ∧
      ∀ command, Command.ofText? text = some command →
        ∀ x ∈ command.mathSymbols, '$' ∉ x.toList) ∧
    ∀ calls : List (Call σ), (∀ call ∈ calls, call.Typed DollarsLead) →
      ∀ x ∈ (after (started limits config) calls).mathSymbols, '$' ∉ x.toList := by
  refine ⟨fun x => exists_draft_iff, fun x => exists_command_iff, fun x => ⟨?_, fun hx => ?_⟩,
    fun x => ⟨?_, fun hx => ?_⟩, fun text hlead => ⟨fun draft => not_mem_draft hlead,
      fun command => not_mem_command hlead⟩, fun calls hcalls x hx => ?_⟩
  · rintro ⟨calls, hcalls, hx⟩
    obtain ⟨call, hcall, hx⟩ := mem_database_after hx
    obtain ⟨text, command, -, hread, hx⟩ := exists_command_of_typed (hcalls call hcall) hx
    exact (mathSymbols_of_command hread x hx).1
  · obtain ⟨call, hcall, hx⟩ :=
      exists_typed_symbol limits config world (isMathSymbol_iff.2 hx)
    exact ⟨[call], List.forall_mem_singleton.2 hcall, hx⟩
  · rintro ⟨calls, hcalls, hx⟩
    obtain ⟨call, hcall, hx⟩ := mem_sheet_after hx
    obtain ⟨text, draft, -, hread, hx⟩ := exists_draft_of_typed (hcalls call hcall) hx
    exact (mathSymbols_of_draft hread x hx).1
  · obtain ⟨call, hcall, hx⟩ := exists_typed_sheet σ limits config hx
    exact ⟨[call], List.forall_mem_singleton.2 hcall, hx⟩
  · obtain hx | hx := List.mem_append.1 hx
    · obtain ⟨call, hcall, hx⟩ := mem_database_after hx
      obtain ⟨text, command, hlead, hread, hx⟩ := exists_command_of_typed (hcalls call hcall) hx
      exact not_mem_command hlead hread x hx
    · obtain ⟨call, hcall, hx⟩ := mem_sheet_after hx
      obtain ⟨text, draft, hlead, hread, hx⟩ := exists_draft_of_typed (hcalls call hcall) hx
      exact not_mem_draft hlead hread x hx

/-- A hypothesis and a worksheet, with no dollar sign but those around the worksheet. -/
theorem mathSymbols_of_typed_calls_turnstile :
    let calls : List (Call FileSystem) := [.execute (.database (.logHyp "h" ⟨["|-", "x"]⟩)) {},
      .loadText "$( <MM> <PROOF_ASST> THEOREM=t\nh1:: |- y\n$)"]
    (∀ call ∈ calls, call.Typed DollarsLead) ∧
      (after (started {} {}) calls).mathSymbols = ["|-", "x", "|-", "x", "|-", "y", "|-", "y"] ∧
      ∀ x ∈ (after (started {} {}) calls).mathSymbols, '$' ∉ x.toList := by
  intro calls
  have hread : Command.ofText? "hyp h |- x;" =
      some (.database (.logHyp "h" ⟨["|-", "x"]⟩)) := by decide +kernel
  have htyped : ∀ call ∈ calls, call.Typed DollarsLead := by
    refine List.forall_mem_cons.2 ⟨⟨?_, nofun⟩, List.forall_mem_singleton.2 ⟨nofun, ?_⟩⟩
    · rintro _ ⟨⟩
      exact ⟨"hyp h |- x;", by decide, hread⟩
    · rintro _ ⟨⟩
      decide
  obtain ⟨-, -, -, -, -, hstored⟩ := mathSymbols_of_typed_calls {} {} ({} : FileSystem)
  exact ⟨htyped, by decide +kernel, hstored calls htyped⟩

/-- Not every math symbol is without a dollar sign, neither those that are read from a worksheet and
from a command nor those that are stored: behind the first character one is let through. -/
theorem dollar_mem_mathSymbols :
    (¬ ∀ text draft, WorksheetDraft.ofText? text = some draft →
      ∀ x ∈ draft.mathSymbols, '$' ∉ x.toList) ∧
    (¬ ∀ text command, Command.ofText? text = some command →
      ∀ x ∈ command.mathSymbols, '$' ∉ x.toList) ∧
    ¬ ∀ calls : List (Call FileSystem), (∀ call ∈ calls, call.Typed fun _ => True) →
      ∀ x ∈ (after (started {} {}) calls).mathSymbols, '$' ∉ x.toList := by
  have hdollar : '$' ∈ "a$b".toList := by decide
  have hcommand : Command.ofText? "symbol a$b;" = some (.database (.symbols ["a$b"])) := by
    decide +kernel
  refine ⟨fun h => ?_, fun h => ?_, fun h => ?_⟩
  · have hread : WorksheetDraft.ofText? "$( <MM> <PROOF_ASST> THEOREM=t\n1:: a$b\n$)" =
        some ⟨some "t", none, [.derivation ⟨"1", [], none, some ⟨["a$b"]⟩, ⟨38, 31⟩⟩]⟩ := by
      decide +kernel
    exact h _ _ hread "a$b" (by decide) hdollar
  · exact h _ _ hcommand "a$b" (by decide) hdollar
  · have htyped : ∀ call ∈ [(.execute (.database (.symbols ["a$b"])) {} : Call FileSystem)],
        call.Typed fun _ => True := by
      refine List.forall_mem_singleton.2 ⟨?_, nofun⟩
      rintro _ ⟨⟩
      exact ⟨_, trivial, hcommand⟩
    exact h _ htyped "a$b" (by decide) hdollar

end Interpreter

end ProofSheet
