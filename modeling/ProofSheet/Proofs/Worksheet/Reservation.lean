import ProofSheet.Proofs.Database.Promotion
import ProofSheet.Proofs.Worksheet.Loading

/-!
The labels that a worksheet for a new theorem reserves, and whether they can be added.

* `Document.Vetted`: the invariant of the loading. The labels of the hypothesis steps are distinct
  and free in the database;
* `Document.Vetted.step`, `Worksheet.vetted_of_load`: one more step, and a whole load;
* `Worksheet.exists_addProved_of_load`: **the hypotheses can always be added**, and the theorem on
  top of them exactly when its own label is no symbol and names none of them;
* `Worksheet.load_symbol_label`: a worksheet is loaded for a theorem whose label is a symbol.

The label of the theorem is only compared with the statements of the database, and a label of a
hypothesis is not compared with the label of the theorem.
-/

namespace ProofSheet

namespace Document

/-- The labels of the hypothesis steps are distinct, and none of them is taken in the database. -/
structure Vetted (doc : Document) (db : Database) : Prop where
  nodup : (doc.hypotheses.map (·.ref)).Nodup
  free : ∀ ref ∈ doc.hypotheses.map (·.ref), db.contains ref = false

namespace Vetted

variable {doc : Document} {db : Database}

lemma empty (db : Database) : Vetted {} db :=
  ⟨List.nodup_nil, fun _ href => (by cases href)⟩

lemma pushDerivation (h : doc.Vetted db) (s : DerivationStep) :
    (doc.push (.derivation s)).Vetted db := by
  constructor
  · rw [hypotheses_push_derivation]
    exact h.nodup
  · rw [hypotheses_push_derivation]
    exact h.free

/-- A hypothesis step whose label no step owns and no statement and no symbol has. -/
lemma pushHypothesis (h : doc.Vetted db) {s : HypothesisStep}
    (howned : doc.ownsRef s.ref = false) (hfree : db.contains s.ref = false) :
    (doc.push (.hypothesis s)).Vetted db := by
  constructor
  · rw [hypotheses_push_hypothesis, List.map_append, List.map_singleton, List.nodup_append]
    refine ⟨h.nodup, List.nodup_singleton _, ?_⟩
    rintro ref href other hother rfl
    rw [List.mem_singleton] at hother
    obtain ⟨t, ht, hlabel⟩ := List.mem_map.1 href
    refine ownsRef_eq_false_iff.1 howned (.hypothesis t) (mem_hypotheses_iff.1 ht) ?_
    rw [ProofStep.ref?, hlabel, hother]
  · rw [hypotheses_push_hypothesis, List.map_append, List.map_singleton]
    intro ref href
    rcases List.mem_append.1 href with href | href
    · exact h.free ref href
    · rw [List.mem_singleton.1 href]
      exact hfree

/-- The step of the invariant. -/
lemma step (h : doc.Vetted db) {theoremLabel : String} {draft : StepDraft} {s : ProofStep}
    (hs : Worksheet.stepOf db (.fresh theoremLabel) doc draft = .ok s) :
    (doc.push s).Vetted db := by
  cases draft with
  | derivation draft =>
      obtain rfl := Worksheet.stepOf_derivation_eq_ok_iff.1 hs
      exact h.pushDerivation _
  | hypothesis draft =>
      obtain ⟨t, ht, rfl⟩ := Worksheet.stepOf_hypothesis_eq_ok_iff.1 hs
      obtain ⟨formula, label, -, hreserve, rfl⟩ := Resolution.resolve_fresh_eq_ok_iff.1 ht
      obtain ⟨-, howned, hfree, -, -⟩ := Resolution.reserve_eq_ok_iff.1 hreserve
      exact h.pushHypothesis howned hfree

end Vetted

end Document

namespace Worksheet

variable {db : Database} {text label : String} {sheet : Worksheet}

/-- **The labels of a worksheet for a new theorem**: its hypotheses have distinct free labels, and
no statement has the label of the theorem. -/
lemma vetted_of_load (hload : Worksheet.load db text = .ok sheet)
    (hfresh : sheet.target = .fresh label) :
    sheet.document.Vetted db ∧ db.find? label = none := by
  obtain ⟨draft, -, hsheet⟩ := load_eq_ok_iff.1 hload
  obtain ⟨label', -, htarget, -, hsteps⟩ := ofDraft_eq_ok_iff.1 hsheet
  rw [hfresh] at htarget hsteps
  obtain ⟨rfl, hnone⟩ := Target.ofLabel_eq_fresh_iff.1 htarget
  exact ⟨loadSteps_induction (P := (·.Vetted db)) (fun _ _ _ _ hdoc hs => hdoc.step hs)
    (.empty db) hsteps, hnone⟩

/-- **Which labels can be added.** In a worksheet for a new theorem the labels of the hypothesis
steps are distinct, and none of them is a statement or a symbol of the database, so that the
hypotheses can be added in document order. No statement has the label of the theorem, and the
theorem can be added on top of its hypotheses exactly when its label is no symbol and none of the
hypothesis steps has it. -/
theorem exists_addProved_of_load (hdb : db.Built) (hload : Worksheet.load db text = .ok sheet)
    (hfresh : sheet.target = .fresh label) (formula : Formula) :
    (sheet.document.hypotheses.map (·.ref)).Nodup ∧
      (∀ ref ∈ sheet.document.hypotheses.map (·.ref), db.contains ref = false) ∧
      db.find? label = none ∧
      (∃ db', (sheet.document.hypotheses.map fun s => (s.ref, s.formula)).foldlM
        (fun db hyp => db.addLogHyp hyp.1 hyp.2) db = .ok db') ∧
      ((∃ db', db.addProved (sheet.document.hypotheses.map fun s => (s.ref, s.formula)) label
          formula = .ok db') ↔
        db.hasSymbol label = false ∧ label ∉ sheet.document.hypotheses.map (·.ref)) := by
  obtain ⟨⟨hnodup, hfree⟩, hnone⟩ := vetted_of_load hload hfresh
  have hlabels : (sheet.document.hypotheses.map fun s => (s.ref, s.formula)).map (·.1) =
      sheet.document.hypotheses.map (·.ref) := List.map_map
  refine ⟨hnodup, hfree, hnone, ?_, ?_⟩
  · rw [Database.exists_foldlM_addLogHyp_iff, hlabels]
    exact ⟨hnodup, hfree⟩
  · rw [Database.exists_addProved_iff hdb.wellFormed, hlabels, List.nodup_cons,
      List.forall_mem_cons, Database.contains_eq_false_iff]
    constructor
    · rintro ⟨⟨hnew, -⟩, ⟨-, hsymbol⟩, -⟩
      exact ⟨hsymbol, hnew⟩
    · rintro ⟨hsymbol, hnew⟩
      exact ⟨⟨hnew, hnodup⟩, ⟨hnone, hsymbol⟩, hfree⟩

/-- A hypothesis step that reserves the label of the theorem itself is accepted, and the theorem
cannot be added. -/
theorem exists_addProved_of_load_own_label :
    ∃ sheet, Worksheet.load {} "$( <MM> <PROOF_ASST> THEOREM=t\nh1::t x\nh2:: y\n$)" = .ok sheet ∧
      sheet.target = .fresh "t" ∧ sheet.document.hypotheses.map (·.ref) = ["t", "t.2"] ∧
        ¬ ∃ db', Database.addProved {} (sheet.document.hypotheses.map fun s => (s.ref, s.formula))
          "t" ⟨["z"]⟩ = .ok db' := by
  have hload : Worksheet.load {} "$( <MM> <PROOF_ASST> THEOREM=t\nh1::t x\nh2:: y\n$)" =
      .ok ⟨.fresh "t", none, ⟨[
        .hypothesis ⟨"1", "t", ⟨["x"]⟩, .flat ParseTree.wff ⟨["x"]⟩, none, "h1::t x", 1⟩,
        .hypothesis ⟨"2", "t.2", ⟨["y"]⟩, .flat ParseTree.wff ⟨["y"]⟩, none, "h2::t.2 y", 1⟩]⟩⟩ :=
    Except.eq_ok_of_toOption (by decide +kernel)
  obtain ⟨-, -, -, -, hiff⟩ := exists_addProved_of_load .refl hload rfl ⟨["z"]⟩
  refine ⟨_, hload, rfl, rfl, ?_⟩
  rw [hiff]
  rintro ⟨-, hnew⟩
  exact hnew List.mem_cons_self

/-- Not every worksheet that is loaded for a new theorem leads to labels that can be added: here
the label of the theorem is a symbol. -/
theorem load_symbol_label :
    ¬ ∀ (db : Database) (text label : String) (sheet : Worksheet), db.Built →
      Worksheet.load db text = .ok sheet → sheet.target = .fresh label →
        (label :: sheet.document.hypotheses.map (·.ref)).Nodup ∧
          (∀ name ∈ label :: sheet.document.hypotheses.map (·.ref), db.contains name = false) ∧
          ∀ formula, ∃ db', db.addProved
            (sheet.document.hypotheses.map fun s => (s.ref, s.formula)) label formula = .ok db' := by
  intro hall
  have hload : Worksheet.load { symbols := ["t"] } "$( <MM> <PROOF_ASST> THEOREM=t\nh1:: x\n$)" =
      .ok ⟨.fresh "t", none, ⟨[
        .hypothesis ⟨"1", "t.1", ⟨["x"]⟩, .flat ParseTree.wff ⟨["x"]⟩, none, "h1::t.1 x", 1⟩]⟩⟩ :=
    Except.eq_ok_of_toOption (by decide +kernel)
  have hbuilt : Database.Built { symbols := ["t"] } := .single (.symbol "t" rfl)
  obtain ⟨-, hfree, -⟩ := hall _ _ _ _ hbuilt hload rfl
  exact absurd (hfree "t" List.mem_cons_self) (by decide)

end Worksheet

end ProofSheet
