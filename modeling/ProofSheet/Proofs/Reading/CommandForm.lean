import ProofSheet.Proofs.Reading.Argument
import ProofSheet.Proofs.Reading.Command
import ProofSheet.Proofs.Reading.Statement

/-!
The forms of commands.

* `Takes`, `anyCommand_eq_some_iff`: **no keyword begins another command**, so that the choice
  between the forms comes down to the reader of one of them;
* `Command.Legible`, `legible_of_takes`: the commands that a text can hold; every command that is
  read is one of them.
-/

namespace ProofSheet

open Reading

/-! ### Commands that a text can hold -/

namespace Reading

/-- A math symbol of commands. -/
def IsMathSymbol (x : String) : Prop :=
  IsToken endsMathSymbol x ∧ startsWith '$' x.toList = false

/-- A formula of commands: one symbol or more. -/
def IsCommandFormula (formula : Formula) : Prop :=
  formula.symbols ≠ [] ∧ ∀ x ∈ formula.symbols, IsMathSymbol x

end Reading

/-- A text can hold the command.  Labels, paths and step numbers may be empty: white space that is
no blank may have been all there was to them. -/
def Command.Legible : Command → Prop
  | .database (.symbols names) => names ≠ [] ∧ ∀ x ∈ names, IsMathSymbol x
  | .database (.logHyp label formula) => IsArgument endsWord label ∧ IsCommandFormula formula
  | .database (.axiomatic label formula) => IsArgument endsWord label ∧ IsCommandFormula formula
  | .database (.provable label hyps formula) =>
    IsArgument endsWord label ∧ (∀ x ∈ hyps, IsToken endsWord x) ∧ IsCommandFormula formula
  | .load path => IsArgument (startsWith ';') path
  | .sheet (.display _) => True
  | .sheet (.renumber renumbering) => renumbering.pairs ≠ [] ∧
    ∀ pair ∈ renumbering.pairs, IsArgument endsStepWord pair.1 ∧ IsArgument endsStepWord pair.2
  | .sheet (.exportTo dir) => ∀ path ∈ dir, IsArgument (startsWith ';') path

namespace Reading

variable {s t rest : List Char} {x label path : String} {formula : Formula} {command : Command}

/-! ### One reader for each form -/

/-- The reader for commands of this form takes the command off the text. -/
def Takes (s rest : List Char) : Command → Prop
  | .database (.symbols names) => symbolsCommand s = some (.symbols names, rest)
  | .database (.logHyp label formula) => labelledFormula "hyp" s = some ((label, formula), rest)
  | .database (.axiomatic label formula) =>
    labelledFormula "axiom" s = some ((label, formula), rest)
  | .database (.provable label hyps formula) =>
    provableCommand s = some (.provable label hyps formula, rest)
  | .load path => loadCommand s = some (path, rest)
  | .sheet (.display detail) => displayCommand s = some (.display detail, rest)
  | .sheet (.renumber renumbering) => renumberCommand s = some (.renumber renumbering, rest)
  | .sheet (.exportTo dir) => exportCommand s = some (.exportTo dir, rest)

lemma takes_of_databaseCommand {command : DatabaseCommand}
    (h : databaseCommand s = some (command, rest)) : Takes s rest (.database command) := by
  rw [databaseCommand] at h
  simp only [Option.orElse_eq_orElse, Option.orElse_eq_or, Option.or_eq_some_iff] at h
  rcases h with h | ⟨-, h | ⟨-, h | ⟨-, h⟩⟩⟩
  · obtain ⟨names, rfl⟩ : ∃ names, command = .symbols names := by
      obtain ⟨t, -, h⟩ := Option.bind_eq_some_iff.1 h
      obtain ⟨first, -, h⟩ := Option.bind_eq_some_iff.1 h
      exact ⟨_, (Prod.mk.inj (Option.some.inj h)).1.symm⟩
    exact h
  · obtain ⟨⟨⟨label, formula⟩, rest⟩, hread, ⟨⟩⟩ := Option.bind_eq_some_iff.1 h
    exact hread
  · obtain ⟨⟨⟨label, formula⟩, rest⟩, hread, ⟨⟩⟩ := Option.bind_eq_some_iff.1 h
    exact hread
  · obtain ⟨label, hyps, formula, rfl⟩ : ∃ label hyps formula,
        command = .provable label hyps formula := by
      simp only [provableCommand, bind, Option.bind_eq_some_iff] at h
      obtain ⟨_, -, _, -, _, -, _, -, _, -, h⟩ := h
      exact ⟨_, _, _, (Prod.mk.inj (Option.some.inj h)).1.symm⟩
    exact h

lemma takes_of_sheetCommand {command : SheetCommand}
    (h : sheetCommand s = some (command, rest)) : Takes s rest (.sheet command) := by
  rw [sheetCommand] at h
  simp only [Option.orElse_eq_orElse, Option.orElse_eq_or, Option.or_eq_some_iff] at h
  rcases h with h | ⟨-, h | ⟨-, h⟩⟩
  · obtain ⟨detail, rfl⟩ : ∃ detail, command = .display detail := by
      obtain ⟨t, -, h⟩ := Option.bind_eq_some_iff.1 h
      exact ⟨_, (Prod.mk.inj (Option.some.inj h)).1.symm⟩
    exact h
  · obtain ⟨renumbering, rfl⟩ : ∃ renumbering, command = .renumber renumbering := by
      simp only [renumberCommand, bind, Option.bind_eq_some_iff] at h
      obtain ⟨_, -, _, -, _, -, h⟩ := h
      exact ⟨_, (Prod.mk.inj (Option.some.inj h)).1.symm⟩
    exact h
  · obtain ⟨dir, rfl⟩ : ∃ dir, command = .exportTo dir := by
      obtain ⟨t, -, h⟩ := Option.bind_eq_some_iff.1 h
      exact ⟨_, (Prod.mk.inj (Option.some.inj h)).1.symm⟩
    exact h

/-- A reader that begins with a keyword finds it at the front of the text. -/
lemma exists_append_of_expect {α : Type} {word : String} {read : Reader α} {a : α × List Char}
    (h : (expect word s).bind read = some a) : ∃ t, s = word.toList ++ t := by
  obtain ⟨t, ht, -⟩ := Option.bind_eq_some_iff.1 h
  exact ⟨t, expect_eq_some_iff.1 ht⟩

lemma anyCommand_of_database {command : DatabaseCommand}
    (h : databaseCommand s = some (command, rest)) :
    anyCommand s = some (.database command, rest) := by
  rw [anyCommand, h]

lemma anyCommand_of_sheet {command : SheetCommand} (hdb : databaseCommand s = none)
    (hload : loadCommand s = none) (h : sheetCommand s = some (command, rest)) :
    anyCommand s = some (.sheet command, rest) := by
  rw [anyCommand, hdb, hload, h]
  rfl

lemma anyCommand_of_takes (h : Takes s rest command) : anyCommand s = some (command, rest) := by
  -- the readers of the other forms refuse the text at its first letters
  match command, h with
  | .database (.symbols _), h =>
      refine anyCommand_of_database ?_
      rw [databaseCommand, show symbolsCommand s = _ from h]
      rfl
  | .database (.logHyp _ _), h =>
      obtain ⟨t, rfl⟩ := exists_append_of_expect h
      refine anyCommand_of_database ?_
      rw [databaseCommand, logHypCommand, show labelledFormula "hyp" _ = _ from h]
      rfl
  | .database (.axiomatic _ _), h =>
      obtain ⟨t, rfl⟩ := exists_append_of_expect h
      refine anyCommand_of_database ?_
      rw [databaseCommand, axiomaticCommand, show labelledFormula "axiom" _ = _ from h]
      rfl
  | .database (.provable _ _ _), h =>
      obtain ⟨t, rfl⟩ := exists_append_of_expect h
      refine anyCommand_of_database ?_
      rw [databaseCommand, show provableCommand _ = _ from h]
      rfl
  | .load _, h =>
      obtain ⟨t, rfl⟩ := exists_append_of_expect h
      have hdb : databaseCommand ("load".toList ++ t) = none := rfl
      rw [anyCommand, hdb, show loadCommand _ = _ from h]
  | .sheet (.display _), h =>
      obtain ⟨t, rfl⟩ := exists_append_of_expect h
      refine anyCommand_of_sheet rfl rfl ?_
      rw [sheetCommand, show displayCommand _ = _ from h]
      rfl
  | .sheet (.renumber _), h =>
      obtain ⟨t, rfl⟩ := exists_append_of_expect h
      refine anyCommand_of_sheet rfl rfl ?_
      rw [sheetCommand, show renumberCommand _ = _ from h]
      rfl
  | .sheet (.exportTo _), h =>
      obtain ⟨t, rfl⟩ := exists_append_of_expect h
      exact anyCommand_of_sheet rfl rfl h

lemma takes_of_anyCommand (h : anyCommand s = some (command, rest)) : Takes s rest command := by
  rw [anyCommand] at h
  cases hdb : databaseCommand s with
  | some x =>
      rw [hdb] at h
      cases h
      exact takes_of_databaseCommand hdb
  | none =>
      cases hload : loadCommand s with
      | some x =>
          rw [hdb, hload] at h
          cases h
          exact hload
      | none =>
          rw [hdb, hload] at h
          obtain ⟨x, hsheet, ⟨⟩⟩ := Option.map_eq_some_iff.1 h
          exact takes_of_sheetCommand hsheet

/-- **No keyword begins another command.** -/
lemma anyCommand_eq_some_iff : anyCommand s = some (command, rest) ↔ Takes s rest command :=
  ⟨takes_of_anyCommand, anyCommand_of_takes⟩

/-! ### Every command that is read is legible -/

lemma isMathSymbol_of_mathSymbol (h : mathSymbol s = some (x, rest)) : IsMathSymbol x := by
  rw [mathSymbol] at h
  split at h
  · cases h
  next hdollar =>
    refine ⟨isToken_of_token looksAhead_endsMathSymbol h, ?_⟩
    obtain ⟨hx, rfl, -⟩ := token_eq_some_iff.1 h
    rw [startsWith_append (mt String.toList_eq_nil_iff.1 hx)] at hdollar
    exact Bool.eq_false_iff.2 hdollar

lemma isMathSymbol_of_nextMathSymbol (h : nextMathSymbol s = some (x, rest)) : IsMathSymbol x := by
  obtain ⟨t, -, h⟩ := Option.bind_eq_some_iff.1 h
  exact isMathSymbol_of_mathSymbol h

lemma isCommandFormula_of_commandFormula (h : commandFormula s = some (formula, rest)) :
    IsCommandFormula formula := by
  obtain ⟨⟨first, t⟩, hfirst, h⟩ := Option.bind_eq_some_iff.1 h
  obtain ⟨rfl, -⟩ := Prod.mk.inj (Option.some.inj h)
  exact ⟨List.cons_ne_nil _ _, List.forall_mem_cons.2 ⟨isMathSymbol_of_mathSymbol hfirst,
    forall_mem_many (fun _ _ _ => isMathSymbol_of_nextMathSymbol) t⟩⟩

lemma isArgument_of_nextWord (h : nextWord s = some (x, rest)) :
    IsArgument endsWord (Text.trim x) := by
  obtain ⟨t, -, h⟩ := Option.bind_eq_some_iff.1 h
  exact isArgument_of_token looksAhead_endsWord h

lemma isToken_of_words : ∀ x ∈ (words s).1, IsToken endsWord x := by
  rw [words]
  cases h : word s with
  | none => exact List.forall_mem_nil _
  | some first =>
      refine List.forall_mem_cons.2 ⟨isToken_of_token looksAhead_endsWord h, ?_⟩
      refine forall_mem_many (fun s x rest h => ?_) first.2
      obtain ⟨t, -, h⟩ := Option.bind_eq_some_iff.1 h
      exact isToken_of_token looksAhead_endsWord h

lemma isArgument_of_nextPath (h : nextPath s = some (path, rest)) :
    IsArgument (startsWith ';') path := by
  obtain ⟨t, -, h⟩ := Option.bind_eq_some_iff.1 h
  obtain ⟨x, hx, ⟨⟩⟩ := Option.bind_eq_some_iff.1 h
  exact isArgument_of_token (looksAhead_startsWith ';') hx

lemma isArgument_of_renumberPair {pair : String × String}
    (h : renumberPair s = some (pair, rest)) :
    IsArgument endsStepWord pair.1 ∧ IsArgument endsStepWord pair.2 := by
  obtain ⟨old, hold, h⟩ := Option.bind_eq_some_iff.1 h
  obtain ⟨t, -, h⟩ := Option.bind_eq_some_iff.1 h
  obtain ⟨new, hnew, ⟨⟩⟩ := Option.bind_eq_some_iff.1 h
  exact ⟨isArgument_of_token looksAhead_endsStepWord hold,
    isArgument_of_token looksAhead_endsStepWord hnew⟩

lemma legible_of_labelledFormula {word : String}
    (h : labelledFormula word s = some ((label, formula), rest)) :
    IsArgument endsWord label ∧ IsCommandFormula formula := by
  simp only [labelledFormula, bind, Option.bind_eq_some_iff] at h
  obtain ⟨t, -, x, hx, u, -, y, hy, ⟨⟩⟩ := h
  exact ⟨isArgument_of_nextWord hx, isCommandFormula_of_commandFormula hy⟩

/-- Every command that is read is legible. -/
lemma legible_of_takes (h : Takes s rest command) : command.Legible := by
  match command, h with
  | .database (.symbols names), h =>
      obtain ⟨t, -, h⟩ := Option.bind_eq_some_iff.1 h
      obtain ⟨⟨first, u⟩, hfirst, ⟨⟩⟩ := Option.bind_eq_some_iff.1 h
      exact ⟨List.cons_ne_nil _ _, List.forall_mem_cons.2 ⟨isMathSymbol_of_nextMathSymbol hfirst,
        forall_mem_many (fun _ _ _ => isMathSymbol_of_nextMathSymbol) u⟩⟩
  | .database (.logHyp _ _), h => exact legible_of_labelledFormula h
  | .database (.axiomatic _ _), h => exact legible_of_labelledFormula h
  | .database (.provable label hyps formula), h =>
      simp only [Takes, provableCommand, bind, Option.bind_eq_some_iff] at h
      obtain ⟨t, -, x, hx, u, -, v, -, y, hy, ⟨⟩⟩ := h
      exact ⟨isArgument_of_nextWord hx, isToken_of_words, isCommandFormula_of_commandFormula hy⟩
  | .load path, h =>
      obtain ⟨t, -, h⟩ := Option.bind_eq_some_iff.1 h
      exact isArgument_of_nextPath h
  | .sheet (.display detail), h => trivial
  | .sheet (.renumber renumbering), h =>
      simp only [Takes, renumberCommand, bind, Option.bind_eq_some_iff] at h
      obtain ⟨t, -, u, -, x, hx, ⟨⟩⟩ := h
      refine ⟨List.cons_ne_nil _ _, List.forall_mem_cons.2 ⟨isArgument_of_renumberPair hx, ?_⟩⟩
      refine forall_mem_many (fun s pair rest h => ?_) x.2
      obtain ⟨v, -, h⟩ := Option.bind_eq_some_iff.1 h
      exact isArgument_of_renumberPair h
  | .sheet (.exportTo dir), h =>
      obtain ⟨t, -, h⟩ := Option.bind_eq_some_iff.1 h
      rw [optional] at h
      cases hread : nextPath t with
      | none =>
          rw [hread] at h
          cases h
          exact fun path hpath => absurd hpath (Option.not_mem_none path)
      | some x =>
          rw [hread] at h
          cases h
          rintro path ⟨⟩
          exact isArgument_of_nextPath hread

end Reading

end ProofSheet
