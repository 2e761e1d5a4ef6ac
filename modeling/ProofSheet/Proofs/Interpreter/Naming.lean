import ProofSheet.Proofs.Database.Additions
import ProofSheet.Proofs.Document.Renumbering
import ProofSheet.Proofs.Interpreter.Reachable
import ProofSheet.Proofs.Reading.TypedNames

/-!
Names that are typed a second time. A step number comes from a worksheet, where white space that is
no blank of the grammar may be part of it, and a label among the hypotheses of a theorem is taken as
it stands; but the step numbers of a renumbering and the label of a new statement lose the white
space at their ends.

* `Document.renumber_trimmed_iff`: when a renumbering without that white space is the one that was
  meant;
* `Interpreter.execute_renumberText_iff`: **which steps a typed renumbering reaches**;
* `Interpreter.execute_theoremText_iff`: **when a label that is typed twice is the same label**.
-/

namespace ProofSheet

open Reading

/-! ### Renumbering one step -/

lemma Renumbering.apply_pair (old new n : String) :
    Renumbering.apply ⟨[(old, new)]⟩ n = if n = old then new else n := by
  rw [apply, target?, List.findRev?_eq_find?_reverse, List.reverse_singleton, List.find?_singleton]
  by_cases h : n = old
  · subst h
    simp
  · simp [h, Ne.symm h]

namespace Document

variable {doc : Document}

/-- Two functions write the numbers in a document alike if they agree on each of them. -/
lemma map_numbers_eq_iff {f g : String → String} :
    doc.steps.map (·.numbers.map f) = doc.steps.map (·.numbers.map g) ↔
      ∀ n ∈ doc.numbers, f n = g n := by
  simp only [List.map_inj_left, numbers, List.mem_flatMap]
  exact ⟨fun h n ⟨s, hs, hn⟩ => h s hs n hn, fun h s hs n hn => h n ⟨s, hs, hn⟩⟩

/-- Without the white space at the ends of its numbers a renumbering of one step does what was meant
if there is none, or if nothing was meant to change. -/
lemma renumber_trimmed_iff {old new : String} (hold : old ∈ doc.numbers) :
    (doc.renumber ⟨[(Text.trim old, Text.trim new)]⟩).steps.map (·.numbers) =
        doc.steps.map (·.numbers.map fun n => if n = old then new else n) ↔
      old = new ∨ (Text.trim old = old ∧ Text.trim new = new) := by
  simp only [map_numbers_renumber, map_numbers_eq_iff, Renumbering.apply_pair]
  constructor
  · intro h
    have hself := h old hold
    rw [if_pos rfl] at hself
    by_cases htrim : old = Text.trim old
    · rw [if_pos htrim] at hself
      exact .inr ⟨htrim.symm, hself⟩
    · rw [if_neg htrim] at hself
      exact .inl hself
  · have hself (n old : String) : (if n = old then old else n) = n := by
      split_ifs with h
      · exact h.symm
      · rfl
    rintro (rfl | ⟨hold, hnew⟩) n -
    · rw [hself, hself]
    · rw [hold, hnew]

end Document

/-! ### Statements that are added -/

namespace Database

variable {db db' : Database} {label : String} {hyps : List String} {formula : Formula}

lemma orStay_eq_ok_iff {outcome : Except DatabaseError Database} :
    db.orStay outcome = (.ok (), db') ↔ outcome = .ok db' := by
  cases outcome <;> simp [orStay]

/-- A theorem rests on what was found under the labels among its hypotheses. -/
lemma hypothesesOf_addTheorem (hdb : db.WellFormed)
    (h : db.addTheorem label hyps formula = .ok db') :
    (db'.hypothesesOf label).map some = hyps.map db.find? := by
  obtain ⟨ids, hids, hadd⟩ := addTheorem_eq_ok_iff.1 h
  obtain ⟨-, rfl⟩ := addStatement_eq_ok_iff.1 hadd
  have hput : Addition.Puts db _ (.provable label hyps formula) := ⟨ids, hids, rfl⟩
  have hgrow : Grows db _ := .single (.provable label hyps formula h)
  exact (hput.hypothesesOf_eq hdb hgrow (List.mem_append_right _ (List.mem_singleton_self _))).2.1

/-- A theorem on one logical hypothesis is added under any label that is free. -/
lemma exists_addTheorem_singleton {hyp : Statement} {name : String}
    (hfree : db.contains label = false) (hfind : db.find? name = some hyp)
    (hlog : hyp.isLogHyp = true) : ∃ db', db.addTheorem label [name] formula = .ok db' := by
  refine ⟨_, addTheorem_eq_ok_iff.2 ⟨[hyp.id], ?_, addStatement_eq_ok_iff.2 ⟨hfree, rfl⟩⟩⟩
  rw [List.map_singleton, List.map_singleton, logHypId?_eq_some_iff.2 ⟨hyp, hfind, hlog, rfl⟩]

end Database

namespace Interpreter

section Renumber

variable {σ : Type} [Storage (StateM σ)] {state : Interpreter} {sheet : Worksheet}
  {old new : String}

lemma run_renumber (hsheet : state.worksheet = some sheet) (m : Renumbering) (world : σ) :
    (state.execute (.sheet (.renumber m)) : StateM σ (Answer × Interpreter)).run world =
      ((.ok (.renumbered (sheet.renumber m)),
        { state with worksheet := some (sheet.renumber m) }), world) := by
  rw [execute, hsheet]
  rfl

/-- **Which steps a typed renumbering reaches.** Take two step numbers without a blank, a semicolon,
a comma or an arrow, the old one from the loaded worksheet, the new one not empty. Unless the old
one is empty the renumbering is accepted, with the white space at the ends of both numbers dropped.
It writes the new number for the old one and changes no other number if and only if the old one is
not empty and there is no such white space, or the two numbers are the same. -/
theorem execute_renumberText_iff (hsheet : state.worksheet = some sheet)
    (hold : old ∈ sheet.document.numbers) (htyped : IsTypedStep old) (htyped' : IsTypedStep new)
    (hne : new ≠ "") (world : σ) :
    (old ≠ "" → Command.ofText? (renumberText old new) =
      some (.sheet (.renumber ⟨[(Text.trim old, Text.trim new)]⟩))) ∧
    ((∃ command sheet', Command.ofText? (renumberText old new) = some command ∧
        (state.execute command : StateM σ (Answer × Interpreter)).run world =
          ((.ok (.renumbered sheet'), { state with worksheet := some sheet' }), world) ∧
        sheet'.document.steps.map (·.numbers) =
          sheet.document.steps.map (·.numbers.map fun n => if n = old then new else n)) ↔
      old ≠ "" ∧ (old = new ∨ (Text.trim old = old ∧ Text.trim new = new))) := by
  have htext (h : old ≠ "") : Command.ofText? (renumberText old new) =
      some (.sheet (.renumber ⟨[(Text.trim old, Text.trim new)]⟩)) :=
    ofText?_renumber (isToken_of_isTypedStep h htyped) (isToken_of_isTypedStep hne htyped')
  refine ⟨htext, ?_⟩
  by_cases hempty : old = ""
  · subst hempty
    refine iff_of_false ?_ fun h => h.1 rfl
    rintro ⟨command, sheet', hcommand, -⟩
    rw [ofText?_renumber_nothing] at hcommand
    cases hcommand
  · rw [htext hempty, ← Document.renumber_trimmed_iff hold]
    constructor
    · rintro ⟨command, sheet', hcommand, hrun, hnumbers⟩
      obtain rfl := Option.some.inj hcommand
      rw [run_renumber hsheet] at hrun
      cases hrun
      exact ⟨hempty, hnumbers⟩
    · rintro ⟨-, hnumbers⟩
      exact ⟨_, _, rfl, run_renumber hsheet _ world, hnumbers⟩

end Renumber

/-- A worksheet whose one step gets the number five. -/
theorem execute_renumberText_iff_five :
    ∃ (state : Interpreter) (sheet : Worksheet), state.worksheet = some sheet ∧
      "1" ∈ sheet.document.numbers ∧
      ∃ command sheet', Command.ofText? (renumberText "1" "5") = some command ∧
        (state.execute command : StateM FileSystem (Answer × Interpreter)).run {} =
          ((.ok (.renumbered sheet'), { state with worksheet := some sheet' }), {}) ∧
        sheet'.document.steps.map (·.numbers) = [["5"]] := by
  have hsheet : (loadText {} "$( <MM> <PROOF_ASST> THEOREM=t\n1:: x\n$)").2.worksheet =
      some ⟨.fresh "t", none, ⟨[
        .derivation ⟨"1", [], none, some ⟨["x"]⟩, "1:: x", 1⟩]⟩⟩ := by
    decide +kernel
  have hold : "1" ∈ ["1"] := List.mem_singleton_self "1"
  obtain ⟨-, hiff⟩ := execute_renumberText_iff hsheet hold (by decide : IsTypedStep "1")
    (by decide : IsTypedStep "5") (by decide) ({} : FileSystem)
  obtain ⟨command, sheet', hcommand, hrun, hnumbers⟩ := hiff.2 (by decide)
  exact ⟨_, _, hsheet, hold, command, sheet', hcommand, hrun, hnumbers⟩

/-- Not every step that can be named is reached: behind this number stands white space that is no
blank. -/
theorem execute_renumberText_white_space :
    ¬ ∀ (state : Interpreter) (sheet : Worksheet) (old new : String) (world : FileSystem),
      Reachable FileSystem state → state.worksheet = some sheet →
        old ∈ sheet.document.numbers → IsTypedStep old → IsNumber new → IsTypedStep new →
        ∃ command sheet', Command.ofText? (renumberText old new) = some command ∧
          (state.execute command : StateM FileSystem (Answer × Interpreter)).run world =
            ((.ok (.renumbered sheet'), { state with worksheet := some sheet' }), world) ∧
          sheet'.document.steps.map (·.numbers) =
            sheet.document.steps.map (·.numbers.map fun n => if n = old then new else n) := by
  intro hall
  have hreach : Reachable FileSystem _ := (Reachable.start .refl {} {}).loadText
    "$( <MM> <PROOF_ASST> THEOREM=t\n1\u00a0:: x\n$)"
  have hsheet : (loadText {} "$( <MM> <PROOF_ASST> THEOREM=t\n1\u00a0:: x\n$)").2.worksheet =
      some ⟨.fresh "t", none, ⟨[
        .derivation ⟨"1\u00a0", [], none, some ⟨["x"]⟩, "1\u00a0:: x", 1⟩]⟩⟩ := by
    decide +kernel
  obtain ⟨command, sheet', hcommand, hrun, hnumbers⟩ :=
    hall _ _ "1\u00a0" "5" {} hreach hsheet (by decide) (by decide) (by decide) (by decide)
  have htrimmed : Command.ofText? (renumberText "1\u00a0" "5") =
      some (.sheet (.renumber ⟨[("1", "5")]⟩)) := by
    decide +kernel
  obtain rfl := Option.some.inj (htrimmed.symm.trans hcommand)
  rw [run_renumber hsheet] at hrun
  cases hrun
  exact absurd hnumbers (by decide)

section Theorem

variable {σ : Type} [Storage (StateM σ)] {state state' : Interpreter}
  {addition : DatabaseCommand} {outcome : Outcome} {world world' : σ}

lemma execute_database_eq_ok_iff :
    (state.execute (.database addition) : StateM σ (Answer × Interpreter)).run world =
        ((.ok outcome, state'), world') ↔
      ∃ db, addition.run state.database = (.ok (), db) ∧ outcome = .added addition.labels ∧
        state' = { state with database := db } ∧ world' = world := by
  constructor
  · intro h
    obtain ⟨hrun, rfl⟩ := Prod.mk.inj h
    rw [runDatabase] at hrun
    split at hrun
    next db hdb =>
      cases hrun
      exact ⟨db, hdb, rfl, rfl, rfl⟩
    next => cases hrun
  · rintro ⟨db, hdb, rfl, rfl, rfl⟩
    show (state.runDatabase addition, world') = _
    rw [runDatabase, hdb]

/-- **When a label that is typed twice is the same label.** A word is typed as the label of a
hypothesis, and the hypothesis is added to the database of a state that can be reached. The
statement that is added is a logical hypothesis, and its label is the word without the white space
at its ends. A theorem with the same word among its hypotheses and a well-formed free label is then
added, and rests on that statement, if and only if there is no such white space. -/
theorem execute_theoremText_iff {w F t : String} {formula : Formula} {command : Command}
    (hreach : Reachable σ state) (hw : IsTypedWord w)
    (hF : commandFormula F.toList = some (formula, [])) (ht : Label.isWellFormed t = true)
    (hfree : state.database.contains t = false) (hne : t ≠ w)
    (hcommand : Command.ofText? (hypText w F) = some command)
    (hadd : (state.execute command : StateM σ (Answer × Interpreter)).run world =
      ((.ok outcome, state'), world')) :
    ∃ hyp : Statement, state'.database.statements = state.database.statements ++ [hyp] ∧
      hyp.isLogHyp = true ∧ hyp.label = Text.trim w ∧
        ((∃ command' outcome' state'' world'',
            Command.ofText? (theoremText t w F) = some command' ∧
              (state'.execute command' : StateM σ (Answer × Interpreter)).run world' =
                ((.ok outcome', state''), world'') ∧
                state''.database.hypothesesOf t = [hyp]) ↔
          Text.trim w = w) := by
  have hword := isToken_of_isTypedWord hw
  have hlabel := isToken_of_isTypedWord (isTypedWord_of_isWellFormed ht)
  have htheorem := ofText?_theorem hword hF hlabel
  rw [Label.trim_of_isWellFormed ht] at htheorem
  obtain rfl := Option.some.inj (hcommand.symm.trans (ofText?_hyp hword hF))
  obtain ⟨db, hrun, rfl, rfl, rfl⟩ := execute_database_eq_ok_iff.1 hadd
  have hok := Database.orStay_eq_ok_iff.1 hrun
  have hwf := hreach.sound.built.wellFormed.adds (.logHyp _ _ hok)
  obtain ⟨-, hdb⟩ := Database.addStatement_eq_ok_iff.1 hok
  refine ⟨⟨state.database.size, Text.trim w, formula, .logHyp⟩, by rw [hdb], rfl, rfl, ?_⟩
  rw [htheorem]
  constructor
  · rintro ⟨command', outcome', state'', world'', hcommand', hrun', hhyps⟩
    obtain rfl := Option.some.inj hcommand'
    obtain ⟨db', hadded, -, rfl, -⟩ := execute_database_eq_ok_iff.1 hrun'
    -- what is found under the word is the statement that was added, so this is its label
    have hfound := Database.hypothesesOf_addTheorem hwf (Database.orStay_eq_ok_iff.1 hadded)
    rw [hhyps] at hfound
    exact (hwf.find?_eq_some_iff.1 (List.singleton_injective hfound).symm).2
  · intro h
    have hfind : db.find? w = some ⟨state.database.size, Text.trim w, formula, .logHyp⟩ :=
      hwf.find?_eq_some_iff.2 ⟨by rw [hdb]; simp, h⟩
    have hfree' : db.contains t = false := by
      rw [hdb, Database.contains_append_statement, hfree, h, Bool.false_or, beq_eq_false_iff_ne]
      exact hne
    obtain ⟨db', hok'⟩ : ∃ db', db.addTheorem t [w] formula = .ok db' :=
      Database.exists_addTheorem_singleton hfree' hfind rfl
    have hhyps := Database.hypothesesOf_addTheorem hwf hok'
    rw [List.map_singleton, hfind] at hhyps
    refine ⟨_, _, _, _, rfl, execute_database_eq_ok_iff.2
      ⟨db', Database.orStay_eq_ok_iff.2 hok', rfl, rfl, rfl⟩, ?_⟩
    exact List.map_injective_iff.2 (fun _ _ => Option.some.inj) hhyps

end Theorem

/-- A hypothesis of one letter, and a theorem that rests on it. -/
theorem execute_theoremText_iff_letter :
    ∃ (state' state'' : Interpreter) (world : FileSystem) (hyp : Statement),
      state'.database.statements = [hyp] ∧ hyp.label = "a" ∧
        ∃ command' outcome', Command.ofText? (theoremText "t" "a" "x") = some command' ∧
          (state'.execute command' : StateM FileSystem (Answer × Interpreter)).run {} =
            ((.ok outcome', state''), world) ∧
          state''.database.hypothesesOf "t" = [hyp] := by
  have hreach : Reachable FileSystem {} := .start .refl {} {}
  have hF : commandFormula "x".toList = some (⟨["x"]⟩, []) := by decide +kernel
  have hcommand : Command.ofText? (hypText "a" "x") = some (.database (.logHyp "a" ⟨["x"]⟩)) :=
    ofText?_hyp (isToken_of_isTypedWord (by decide)) hF
  have hadd : (execute {} (.database (.logHyp "a" ⟨["x"]⟩)) :
      StateM FileSystem (Answer × Interpreter)).run {} =
      ((.ok (.added ["a"]), { database := ⟨[⟨0, "a", ⟨["x"]⟩, .logHyp⟩], []⟩ }), {}) := rfl
  obtain ⟨hyp, hstatements, -, hlabel, hiff⟩ := execute_theoremText_iff hreach
    (by decide : IsTypedWord "a") hF (by decide : Label.isWellFormed "t" = true) rfl (by decide)
    hcommand hadd
  obtain ⟨command', outcome', state'', world, hcommand', hrun, hhyps⟩ := hiff.2 (by decide)
  exact ⟨_, state'', world, hyp, hstatements, hlabel, command', outcome', hcommand', hrun, hhyps⟩

/-- A label that is typed twice is not always the same label: in front of this word stands white
space that is no blank. -/
theorem execute_theoremText_white_space :
    ¬ ∀ (state state' : Interpreter) (w F t : String) (formula : Formula) (command : Command)
      (outcome : Outcome) (world world' : FileSystem), Reachable FileSystem state →
        IsTypedWord w → commandFormula F.toList = some (formula, []) →
        Label.isWellFormed t = true → state.database.contains t = false → t ≠ w →
        Command.ofText? (hypText w F) = some command →
        (state.execute command : StateM FileSystem (Answer × Interpreter)).run world =
          ((.ok outcome, state'), world') →
        ∃ (hyp : Statement) (command' : Command) (outcome' : Outcome) (state'' : Interpreter)
          (world'' : FileSystem),
          state'.database.statements = state.database.statements ++ [hyp] ∧ hyp.label = w ∧
            Command.ofText? (theoremText t w F) = some command' ∧
            (state'.execute command' : StateM FileSystem (Answer × Interpreter)).run world' =
              ((.ok outcome', state''), world'') ∧
            state''.database.hypothesesOf t = [hyp] := by
  intro hall
  have hreach : Reachable FileSystem {} := .start .refl {} {}
  have hword : IsTypedWord "\u00a0a" := by decide
  have hF : commandFormula "x".toList = some (⟨["x"]⟩, []) := by decide +kernel
  obtain ⟨hyp, command', outcome', state'', world'', -, -, hcommand', hrun, -⟩ :=
    hall {} _ "\u00a0a" "x" "t" ⟨["x"]⟩ _ _ {} {} hreach hword hF (by decide) rfl (by decide)
      (ofText?_hyp (isToken_of_isTypedWord hword) hF) rfl
  -- the theorem asks for the label as it was typed, and there is only the trimmed one
  have htheorem : Command.ofText? (theoremText "t" "\u00a0a" "x") =
      some (.database (.provable "t" ["\u00a0a"] ⟨["x"]⟩)) :=
    ofText?_theorem (isToken_of_isTypedWord hword) hF (isToken_of_isTypedWord (by decide))
  obtain rfl := Option.some.inj (htheorem.symm.trans hcommand')
  obtain ⟨db, hadded, -⟩ := execute_database_eq_ok_iff.1 hrun
  have hrefused : (.error (.notLogHyp "t" "\u00a0a") : Except DatabaseError Unit) = .ok () :=
    congrArg (·.1) hadded
  cases hrefused

end Interpreter

end ProofSheet
