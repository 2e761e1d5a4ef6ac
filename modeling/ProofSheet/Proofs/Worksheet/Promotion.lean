import ProofSheet.Proofs.Database.Promotion
import ProofSheet.Proofs.Worksheet.Loading

/-!
Promotion of a new theorem. Once the hypotheses that a worksheet reserves labels for are added to
the database, and the theorem with them, the text of the worksheet loads as it did before, with
every hypothesis step bound.

* `Document.boundIn`: the steps with each hypothesis step bound to the statement that its label
  names;
* `Resolution.bindHypothesis_boundIn`: the label that a draft reserves for a new theorem is the one
  that it finds in the promoted theorem;
* `Worksheet.stepOf_boundIn`, `Worksheet.loadSteps_boundIn`: one step, and all of them;
* `Worksheet.load_addProved`: **the promoted worksheet loads**.
-/

namespace ProofSheet

/-! ### Binding the hypothesis steps of a document -/

/-- The step bound to the statement that its label names. -/
def HypothesisStep.boundIn (db : Database) (s : HypothesisStep) : HypothesisStep :=
  { s with bound := (db.find? s.ref).map (·.id) }

lemma HypothesisStep.boundIn_ofFields {db : Database} {ref : String} {hyp : Statement}
    (h : db.find? ref = some hyp) (step : String) (formula : Formula) (tree : ParseTree) :
    (ofFields step ref formula tree none).boundIn db =
      ofFields step ref formula tree (some hyp.id) := by
  have hbound : ((db.find? ref).map (·.id) : Option StatementId) = some hyp.id := by
    rw [h, Option.map_some]
  show { ofFields step ref formula tree none with
    bound := (db.find? ref).map (·.id) : HypothesisStep } = _
  rw [hbound]
  rfl

/-- The step, bound if it is a hypothesis step. -/
def ProofStep.boundIn (db : Database) : ProofStep → ProofStep
  | hypothesis s => hypothesis (s.boundIn db)
  | derivation s => derivation s

namespace Document

/-- The document with every hypothesis step bound to the statement that its label names. -/
def boundIn (db : Database) (doc : Document) : Document :=
  ⟨doc.steps.map (·.boundIn db)⟩

lemma boundIn_push (db : Database) (doc : Document) (s : ProofStep) :
    (doc.push s).boundIn db = (doc.boundIn db).push (s.boundIn db) := by
  simp [boundIn, push]

lemma ownsRef_boundIn (db : Database) (doc : Document) (label : String) :
    (doc.boundIn db).ownsRef label = doc.ownsRef label := by
  have hsteps (s : ProofStep) : (s.boundIn db).ref? = s.ref? := by cases s <;> rfl
  rw [Bool.eq_iff_iff, ownsRef_iff, ownsRef_iff]
  simp [boundIn, hsteps]

lemma hypotheses_boundIn (db : Database) (doc : Document) :
    (doc.boundIn db).hypotheses = doc.hypotheses.map (·.boundIn db) := by
  rw [hypotheses, boundIn, List.filterMap_map, hypotheses, List.map_filterMap]
  refine List.filterMap_congr fun s _ => ?_
  cases s <;> rfl

/-- A statement is bound in the bound document if a hypothesis step has its label. -/
lemma binds_boundIn_iff {db : Database} (hdb : db.WellFormed) {doc : Document} {hyp : Statement}
    (hhyp : hyp ∈ db.statements) :
    (doc.boundIn db).binds hyp.id = true ↔ hyp.label ∈ doc.hypotheses.map (·.ref) := by
  rw [binds_iff, hypotheses_boundIn, List.map_map, List.mem_map, List.mem_map]
  refine exists_congr fun s => and_congr_right fun _ => ?_
  show (db.find? s.ref).map (·.id) = some hyp.id ↔ s.ref = hyp.label
  rw [Option.map_eq_some_iff]
  constructor
  · rintro ⟨other, hfind, hid⟩
    obtain ⟨hother, hlabel⟩ := hdb.find?_eq_some_iff.1 hfind
    rw [← hlabel, hdb.eq_of_id_eq hother hhyp hid]
  · intro hlabel
    exact ⟨hyp, hdb.find?_eq_some_iff.2 ⟨hhyp, hlabel.symm⟩, rfl⟩

lemma hypotheses_prefix {doc doc' : Document} (h : doc.steps <+: doc'.steps) :
    doc.hypotheses <+: doc'.hypotheses :=
  h.filterMap _

lemma ownsRef_of_mem_hypotheses {doc : Document} {label : String}
    (h : label ∈ doc.hypotheses.map (·.ref)) : doc.ownsRef label = true := by
  obtain ⟨s, hs, rfl⟩ := List.mem_map.1 h
  exact ownsRef_iff.2 ⟨.hypothesis s, mem_hypotheses_iff.1 hs, rfl⟩

end Document

/-! ### One step -/

section Promoted

variable {db db' : Database} {theoremLabel : String} {doc : Document}

/-- **The reserved label is found again.** A draft of the new theorem that reserves the label of
a logical hypothesis of the promoted theorem finds this hypothesis there, if the hypothesis steps
before it have the labels of the hypotheses before that one. -/
lemma Resolution.bindHypothesis_boundIn (hdb : db'.WellFormed) {ref : Option String}
    {label : String} (hlabel : Resolution.reserve db theoremLabel doc ref = .ok label)
    {before after : List Statement} {hyp : Statement}
    (hhyps : db'.hypothesesOf theoremLabel = before ++ hyp :: after)
    (hbefore : before.map (·.label) = doc.hypotheses.map (·.ref)) (hhyp : hyp.label = label) :
    Resolution.bindHypothesis db' theoremLabel (doc.boundIn db') ref hyp.formula = .ok hyp := by
  obtain ⟨hgiven, hfree, -⟩ := Resolution.reserve_eq_ok_iff.1 hlabel
  have hmem : ∀ h ∈ before ++ hyp :: after, h ∈ db'.statements ∧ h.isLogHyp = true :=
    fun h hh => hdb.of_mem_hypothesesOf (hhyps ▸ hh)
  obtain ⟨hstatement, hlog⟩ := hmem hyp (by simp)
  rw [Resolution.bindHypothesis_eq_ok_iff, Document.ownsRef_boundIn]
  cases ref with
  | some given =>
      obtain rfl : label = given := hgiven
      refine ⟨hfree, Resolution.matchLabel_eq_ok_iff.2 ⟨?_, hlog, ⟨hyp, ?_, rfl⟩, rfl⟩⟩
      · exact hdb.find?_eq_some_iff.2 ⟨hstatement, hhyp⟩
      · rw [hhyps]
        simp
  | none =>
      refine ⟨hhyp ▸ hfree, Resolution.matchFormula_eq_ok_iff.2 ?_⟩
      have hpassed : ∀ h ∈ before, (doc.boundIn db').binds h.id = true := fun h hh => by
        rw [Document.binds_boundIn_iff hdb (hmem h (List.mem_append_left _ hh)).1, ← hbefore]
        exact List.mem_map_of_mem hh
      have hfirst : (doc.boundIn db').binds hyp.id = false := by
        rw [← Bool.not_eq_true, Document.binds_boundIn_iff hdb hstatement, hhyp]
        intro howned
        rw [Document.ownsRef_of_mem_hypotheses howned] at hfree
        cases hfree
      -- the hypotheses before this one are claimed, and this one is not
      rw [hhyps, List.find?_append, List.find?_eq_none.2, Option.none_or,
        List.find?_cons_of_pos]
      · simp [hfirst]
      · intro h hh
        simp [hpassed h hh]

variable {final : Document}

/-- The simulation: what a draft becomes for the new theorem, it becomes for the promoted theorem
as well, bound to the hypothesis of that theorem that is next. -/
lemma Worksheet.stepOf_boundIn (hdb : db'.WellFormed)
    (hhyps : (db'.hypothesesOf theoremLabel).map (fun hyp => (hyp.label, hyp.formula)) =
      final.hypotheses.map fun s => (s.ref, s.formula))
    {draft : StepDraft} (hdraft : draft.Legible) {s : ProofStep}
    (hs : Worksheet.stepOf db (.fresh theoremLabel) doc draft = .ok s)
    (hfinal : (doc.push s).steps <+: final.steps) :
    Worksheet.stepOf db' (.existing theoremLabel) (doc.boundIn db') draft =
      .ok (s.boundIn db') := by
  cases draft with
  | derivation draft =>
      obtain rfl := Worksheet.stepOf_derivation_eq_ok_iff.1 hs
      rfl
  | hypothesis draft =>
      obtain ⟨t, ht, rfl⟩ := Worksheet.stepOf_hypothesis_eq_ok_iff.1 hs
      obtain ⟨formula, label, hformula, hlabel, rfl⟩ := Resolution.resolve_fresh_eq_ok_iff.1 ht
      obtain ⟨more, hmore⟩ := Document.hypotheses_prefix hfinal
      rw [← hmore, Document.hypotheses_push_hypothesis, List.append_assoc, List.map_append]
        at hhyps
      obtain ⟨before, rest, hsplit, hbefore, hrest⟩ := List.map_eq_append_iff.1 hhyps
      obtain ⟨hyp, after, rfl, hhyp, -⟩ := List.map_eq_cons_iff.1 hrest
      obtain ⟨hhypLabel, hhypFormula⟩ := Prod.mk.inj hhyp
      have hlabels : before.map (·.label) = doc.hypotheses.map (·.ref) := by
        have hfirst := congrArg (List.map Prod.fst) hbefore
        rw [List.map_map, List.map_map] at hfirst
        exact hfirst
      have hbind := Resolution.bindHypothesis_boundIn hdb hlabel hsplit hlabels hhypLabel
      have hmem : hyp ∈ db'.hypothesesOf theoremLabel := by
        rw [hsplit]
        simp
      have hfind : db'.find? label = some hyp :=
        hdb.find?_eq_some_iff.2 ⟨(hdb.of_mem_hypothesesOf hmem).1, hhypLabel⟩
      obtain rfl : hyp.label = label := hhypLabel
      obtain rfl : hyp.formula = formula := hhypFormula
      refine Worksheet.stepOf_hypothesis_eq_ok_iff.2
        ⟨_, Resolution.resolve_existing_eq_ok_iff.2 ⟨_, hyp, hformula, hbind, rfl⟩, ?_⟩
      rw [hdraft.tree, ProofStep.boundIn, HypothesisStep.boundIn_ofFields hfind]
      rfl

/-- The simulation of a whole load. -/
lemma Worksheet.loadSteps_boundIn (hdb : db'.WellFormed)
    (hhyps : (db'.hypothesesOf theoremLabel).map (fun hyp => (hyp.label, hyp.formula)) =
      final.hypotheses.map fun s => (s.ref, s.formula))
    {drafts : List StepDraft} (hdrafts : ∀ d ∈ drafts, d.Legible)
    (h : Worksheet.loadSteps db (.fresh theoremLabel) doc drafts = .ok final) :
    Worksheet.loadSteps db' (.existing theoremLabel) (doc.boundIn db') drafts =
      .ok (final.boundIn db') := by
  induction drafts generalizing doc with
  | nil =>
      obtain rfl := Worksheet.loadSteps_nil_eq_ok_iff.1 h
      rfl
  | cons draft drafts ih =>
      obtain ⟨hdraft, hdrafts⟩ := List.forall_mem_cons.1 hdrafts
      obtain ⟨s, hs, h⟩ := Worksheet.loadSteps_cons_eq_ok_iff.1 h
      have hprefix := Worksheet.steps_prefix_of_loadSteps h
      refine Worksheet.loadSteps_cons_eq_ok_iff.2
        ⟨s.boundIn db', Worksheet.stepOf_boundIn hdb hhyps hdraft hs hprefix, ?_⟩
      rw [← Document.boundIn_push]
      exact ih hdrafts h

end Promoted

/-! ### The whole worksheet -/

/-- **The promoted worksheet loads.** When the hypotheses of a worksheet for a new theorem are
added to the database in document order, and the theorem on top of them, then the text of the
worksheet loads against the larger database, now for a theorem of the database. It becomes the
same worksheet, but that every hypothesis step is bound to the logical hypothesis with its
label. -/
theorem Worksheet.load_addProved {db db' : Database} (hdb : db.Built) {text label : String}
    {sheet : Worksheet} (hload : Worksheet.load db text = .ok sheet)
    (hfresh : sheet.target = .fresh label) {formula : Formula}
    (hadd : db.addProved (sheet.document.hypotheses.map fun s => (s.ref, s.formula)) label
      formula = .ok db') :
    Worksheet.load db' text = .ok
        { target := .existing label, locAfter := sheet.locAfter,
          document := sheet.document.boundIn db' } ∧
      ∀ s ∈ sheet.document.hypotheses,
        ∃ hyp, db'.find? s.ref = some hyp ∧ hyp ∈ db'.hypothesesOf label := by
  have hwf := hdb.wellFormed.grows (Database.grows_addProved hdb.wellFormed hadd)
  have hhyps := Database.hypothesesOf_addProved hdb.wellFormed hadd
  obtain ⟨draft, hdraft, hsheet⟩ := Worksheet.load_eq_ok_iff.1 hload
  obtain ⟨label', hlabel', htarget, hloc, hsteps⟩ := Worksheet.ofDraft_eq_ok_iff.1 hsheet
  rw [hfresh] at htarget hsteps
  obtain ⟨rfl, -⟩ := Target.ofLabel_eq_fresh_iff.1 htarget
  refine ⟨?_, fun s hs => ?_⟩
  · refine Worksheet.load_eq_ok_iff.2 ⟨draft, hdraft, Worksheet.ofDraft_eq_ok_iff.2
      ⟨label', hlabel', ?_, hloc, ?_⟩⟩
    · exact Target.ofLabel_eq_existing_iff.2 ⟨rfl, Database.find?_addProved hdb.wellFormed hadd⟩
    · exact Worksheet.loadSteps_boundIn hwf hhyps (Reading.legible_of_ofText? hdraft).steps hsteps
  · have hmem : (s.ref, s.formula) ∈ (db'.hypothesesOf label').map
        fun hyp => (hyp.label, hyp.formula) := hhyps ▸ List.mem_map_of_mem hs
    obtain ⟨hyp, hhyp, heq⟩ := List.mem_map.1 hmem
    exact ⟨hyp, hwf.find?_eq_some_iff.2
      ⟨(hwf.of_mem_hypothesesOf hhyp).1, (Prod.mk.inj heq).1⟩, hhyp⟩

/-- Three hypotheses with one formula, the second with a label of its own and a derivation step in
between. -/
theorem Worksheet.load_addProved_three :
    ∃ text sheet db',
      text = "$( <MM> <PROOF_ASST> THEOREM=t\nh1:: x\nh2::k x\n3:1:a y\nh4:: x\n$)" ∧
        Worksheet.load {} text = .ok sheet ∧ sheet.target = .fresh "t" ∧
          Database.addProved {} [("t.1", ⟨["x"]⟩), ("k", ⟨["x"]⟩), ("t.3", ⟨["x"]⟩)] "t" ⟨["y"]⟩ =
            .ok db' ∧
          Worksheet.load db' text = .ok
            { target := .existing "t", locAfter := none, document := sheet.document.boundIn db' } ∧
          (sheet.document.boundIn db').hypotheses.map (·.bound) = [some 0, some 1, some 2] := by
  have hload : Worksheet.load {}
      "$( <MM> <PROOF_ASST> THEOREM=t\nh1:: x\nh2::k x\n3:1:a y\nh4:: x\n$)" =
      .ok ⟨.fresh "t", none, ⟨[
        .hypothesis ⟨"1", "t.1", ⟨["x"]⟩, .flat ParseTree.wff ⟨["x"]⟩, none, "h1::t.1 x", 1⟩,
        .hypothesis ⟨"2", "k", ⟨["x"]⟩, .flat ParseTree.wff ⟨["x"]⟩, none, "h2::k x", 1⟩,
        .derivation ⟨"3", ["1"], some "a", some ⟨["y"]⟩, "3:1:a y", 1⟩,
        .hypothesis ⟨"4", "t.3", ⟨["x"]⟩, .flat ParseTree.wff ⟨["x"]⟩, none, "h4::t.3 x", 1⟩]⟩⟩ :=
    Except.eq_ok_of_toOption (by decide +kernel)
  have hadd : Database.addProved {} [("t.1", ⟨["x"]⟩), ("k", ⟨["x"]⟩), ("t.3", ⟨["x"]⟩)] "t"
      ⟨["y"]⟩ = .ok ⟨[⟨0, "t.1", ⟨["x"]⟩, .logHyp⟩, ⟨1, "k", ⟨["x"]⟩, .logHyp⟩,
        ⟨2, "t.3", ⟨["x"]⟩, .logHyp⟩, ⟨3, "t", ⟨["y"]⟩, .provable [0, 1, 2]⟩], []⟩ := rfl
  obtain ⟨hpromoted, -⟩ := Worksheet.load_addProved .refl hload rfl hadd
  exact ⟨_, _, _, rfl, hload, rfl, hadd, hpromoted, rfl⟩

end ProofSheet
