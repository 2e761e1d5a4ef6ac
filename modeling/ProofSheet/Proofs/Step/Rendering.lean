import ProofSheet.Document
import ProofSheet.Proofs.Step.Renumbering
import ProofSheet.Proofs.Text.Line

/-!
The text of a step and its fields.

* `HypothesisStep.renumber_ref` and the lemmas beside it: a renumbering leaves everything but the
  numbers and the text of a step alone;
* `ProofStep.numbers`, `ProofStep.content`: the numbers in a step, and its other fields;
* `ProofStep.Rendered`: the text of the step is what its fields are written as;
* `ProofStep.Rendered.renumber_eq`: **a new header in place of the old one is as good as writing the
  text anew**, so that renumbering a rendered step is `ProofStep.mapNumbers`, where functions on
  numbers compose;
* `ProofStep.Rendered.lineCount_text`: the numbers of a step do not matter to how many lines its
  text has, as long as there is no line feed in them;
* `ProofStep.layOut_eq_self_iff`: laying a step out changes nothing if its text is rendered and its
  lines are counted.
-/

namespace ProofSheet

/-! ### What a renumbering leaves alone -/

namespace HypothesisStep

variable (m : Renumbering) (s : HypothesisStep)

@[simp]
lemma renumber_ref : (s.renumber m).ref = s.ref := by
  rw [renumber]
  split <;> rfl

@[simp]
lemma renumber_formula : (s.renumber m).formula = s.formula := by
  rw [renumber]
  split <;> rfl

@[simp]
lemma renumber_tree : (s.renumber m).tree = s.tree := by
  rw [renumber]
  split <;> rfl

@[simp]
lemma renumber_bound : (s.renumber m).bound = s.bound := by
  rw [renumber]
  split <;> rfl

@[simp]
lemma renumber_lineCount : (s.renumber m).lineCount = s.lineCount := by
  rw [renumber]
  split <;> rfl

@[simp]
lemma renumber_step : (s.renumber m).step = m.apply s.step := by
  rw [renumber, Renumbering.apply]
  cases m.target? s.step <;> rfl

end HypothesisStep

namespace DerivationStep

variable (m : Renumbering) (s : DerivationStep)

@[simp]
lemma renumber_ref : (s.renumber m).ref = s.ref := by
  rw [renumber]
  split <;> rfl

@[simp]
lemma renumber_formula : (s.renumber m).formula = s.formula := by
  rw [renumber]
  split <;> rfl

@[simp]
lemma renumber_lineCount : (s.renumber m).lineCount = s.lineCount := by
  rw [renumber]
  split <;> rfl

/-- A step that the renumbering does not touch has no number that it names. -/
lemma apply_of_not_named {s : DerivationStep} (h : ¬ (s.step :: s.hyps).any m.names = true) :
    m.apply s.step = s.step ∧ s.hyps.map m.apply = s.hyps := by
  rw [Bool.not_eq_true, List.any_eq_false] at h
  have hself (n : String) (hn : n ∈ s.step :: s.hyps) : m.apply n = n :=
    Renumbering.apply_eq_self (Bool.eq_false_iff.2 (h n hn))
  refine ⟨hself _ List.mem_cons_self, ?_⟩
  exact (List.map_congr_left fun n hn => hself n (List.mem_cons_of_mem _ hn)).trans (List.map_id _)

@[simp]
lemma renumber_step : (s.renumber m).step = m.apply s.step := by
  rw [renumber]
  split
  · rfl
  next h => exact (apply_of_not_named m h).1.symm

@[simp]
lemma renumber_hyps : (s.renumber m).hyps = s.hyps.map m.apply := by
  rw [renumber]
  split
  · rfl
  next h => exact (apply_of_not_named m h).2.symm

end DerivationStep

/-! ### Numbers and other fields -/

namespace ProofStep

/-- The numbers of the steps that the step rests on. -/
def hyps : ProofStep → List String
  | hypothesis _ => []
  | derivation s => s.hyps

/-- The numbers in the step: its own, and those of the steps that it rests on. -/
def numbers (s : ProofStep) : List String :=
  s.step :: s.hyps

/-- What is in the step besides its numbers and its text: the reference label, the formula and,
for a hypothesis step, the tree and the logical hypothesis that it is bound to. -/
def content (s : ProofStep) :
    Option String × Option Formula × Option (ParseTree × Option StatementId) :=
  (s.ref?, s.formula?, s.hypothesis?.map fun s => (s.tree, s.bound))

variable (m : Renumbering) (s : ProofStep)

lemma step_renumber : (s.renumber m).step = m.apply s.step := by
  cases s with
  | hypothesis s => exact s.renumber_step m
  | derivation s => exact s.renumber_step m

lemma hyps_renumber : (s.renumber m).hyps = s.hyps.map m.apply := by
  cases s with
  | hypothesis s => rfl
  | derivation s => exact s.renumber_hyps m

lemma numbers_renumber : (s.renumber m).numbers = s.numbers.map m.apply := by
  rw [numbers, step_renumber, hyps_renumber, numbers, List.map_cons]

lemma content_renumber : (s.renumber m).content = s.content := by
  cases s with
  | hypothesis s =>
      show (some (s.renumber m).ref, some (s.renumber m).formula,
        some ((s.renumber m).tree, (s.renumber m).bound)) = _
      rw [s.renumber_ref, s.renumber_formula, s.renumber_tree, s.renumber_bound]
      rfl
  | derivation s =>
      show ((s.renumber m).ref, (s.renumber m).formula, none) = _
      rw [s.renumber_ref, s.renumber_formula]
      rfl

lemma ref?_renumber : (s.renumber m).ref? = s.ref? :=
  congrArg (·.1) (s.content_renumber m)

lemma formula?_renumber : (s.renumber m).formula? = s.formula? :=
  congrArg (·.2.1) (s.content_renumber m)

lemma lineCount_renumber : (s.renumber m).lineCount = s.lineCount := by
  cases s with
  | hypothesis s => exact s.renumber_lineCount m
  | derivation s => exact s.renumber_lineCount m

lemma content_layOut : s.layOut.content = s.content := by
  cases s <;> rfl

lemma formula?_layOut : s.layOut.formula? = s.formula? :=
  congrArg (·.2.1) s.content_layOut

lemma numbers_layOut : s.layOut.numbers = s.numbers := by
  cases s <;> rfl

end ProofStep

/-! ### Rendered steps -/

/-- The header is in front of the formula. -/
lemma statementText_append (front header : String) (formula : Option Formula) :
    statementText (front ++ header) formula = front ++ statementText header formula := by
  cases formula with
  | none => rfl
  | some f => cases hf : f.isEmpty <;> simp [statementText, hf, String.append_assoc]

/-- The front of a statement is its header. -/
lemma replaceFront_statementText (old new : String) (formula : Option Formula) :
    Text.replaceFront (statementText old formula) old new = statementText new formula := by
  have happend (header : String) : statementText header formula =
      header ++ statementText "" formula := by
    rw [← statementText_append, String.append_empty]
  rw [happend old, happend new, Text.replaceFront_append]

namespace ProofStep

/-- The text of the step is what its fields are written as. -/
def Rendered (s : ProofStep) : Prop :=
  s.text = statementText s.header s.formula?

/-- The step with its numbers as `f` says and its text written with them; its lines are not counted
again. -/
def mapNumbers (f : String → String) : ProofStep → ProofStep
  | hypothesis s =>
    let header := Header.ofHypothesis (f s.step) (some s.ref)
    hypothesis { s with step := f s.step, text := statementText header (some s.formula) }
  | derivation s =>
    let header := Header.ofDerivation (f s.step) (s.hyps.map f) s.ref
    derivation { s with
      step := f s.step, hyps := s.hyps.map f, text := statementText header s.formula }

lemma rendered_mapNumbers (f : String → String) (s : ProofStep) : (s.mapNumbers f).Rendered := by
  cases s <;> rfl

/-- Functions on numbers compose. -/
lemma mapNumbers_mapNumbers (f g : String → String) (s : ProofStep) :
    (s.mapNumbers f).mapNumbers g = s.mapNumbers (g ∘ f) := by
  cases s with
  | hypothesis s => rfl
  | derivation s => simp only [mapNumbers, List.map_map, Function.comp_apply]

/-- Only the numbers in the step matter. -/
lemma mapNumbers_congr {f g : String → String} {s : ProofStep} (h : ∀ n ∈ s.numbers, f n = g n) :
    s.mapNumbers f = s.mapNumbers g := by
  obtain ⟨hstep, hhyps⟩ := List.forall_mem_cons.1 h
  cases s with
  | hypothesis s =>
      have hstep : f s.step = g s.step := hstep
      rw [mapNumbers, mapNumbers, hstep]
  | derivation s =>
      have hstep : f s.step = g s.step := hstep
      have hhyps : s.hyps.map f = s.hyps.map g := List.map_congr_left hhyps
      rw [mapNumbers, mapNumbers, hstep, hhyps]

namespace Rendered

variable {s : ProofStep}

lemma mapNumbers_id (h : s.Rendered) : s.mapNumbers id = s := by
  cases s with
  | hypothesis s =>
      have htext : s.text = statementText s.header (some s.formula) := h
      rw [mapNumbers, id_eq, ← HypothesisStep.header, ← htext]
  | derivation s =>
      have htext : s.text = statementText s.header s.formula := h
      rw [mapNumbers, List.map_id, id_eq, ← DerivationStep.header, ← htext]

/-- **Renumbering a rendered step** is writing its text anew with the new numbers. -/
lemma renumber_eq (h : s.Rendered) (m : Renumbering) : s.renumber m = s.mapNumbers m.apply := by
  cases s with
  | hypothesis s =>
      have htext : s.text = statementText s.header (some s.formula) := h
      rw [ProofStep.renumber, HypothesisStep.renumber, mapNumbers, Renumbering.apply]
      cases m.target? s.step with
      | none => rw [Option.getD_none, ← HypothesisStep.header, ← htext]
      | some step =>
          show hypothesis { s with
            step
            text := Text.replaceFront s.text s.header (Header.ofHypothesis step (some s.ref)) } = _
          rw [htext, replaceFront_statementText, Option.getD_some]
  | derivation s =>
      have htext : s.text = statementText s.header s.formula := h
      rw [ProofStep.renumber, DerivationStep.renumber, mapNumbers]
      -- a step that is not touched keeps its text, which is right as its numbers stay as they are
      split
      · rw [DerivationStep.withNumbers, htext, replaceFront_statementText]
      next hnamed =>
        obtain ⟨hstep, hhyps⟩ := DerivationStep.apply_of_not_named m hnamed
        rw [hstep, hhyps, ← DerivationStep.header, ← htext]

/-- **A renumbered step is rendered** if the step was. -/
lemma renumber (h : s.Rendered) (m : Renumbering) : (s.renumber m).Rendered := by
  rw [h.renumber_eq]
  exact rendered_mapNumbers _ s

/-- **Two renumberings in a row** are a single one. -/
lemma renumber_renumber (h : s.Rendered) (m m' : Renumbering) :
    (s.renumber m).renumber m' = s.renumber (m.andThen m') := by
  calc (s.renumber m).renumber m' = (s.mapNumbers m.apply).mapNumbers m'.apply := by
        rw [(h.renumber m).renumber_eq, h.renumber_eq]
    _ = s.mapNumbers (m'.apply ∘ m.apply) := mapNumbers_mapNumbers _ _ s
    _ = s.mapNumbers (m.andThen m').apply :=
        mapNumbers_congr fun n _ => (m.apply_andThen m' n).symm
    _ = s.renumber (m.andThen m') := (h.renumber_eq _).symm

/-- A renumbering under which the numbers in the step stay as they are changes nothing. -/
lemma renumber_eq_self (h : s.Rendered) {m : Renumbering} (hm : ∀ n ∈ s.numbers, m.apply n = n) :
    s.renumber m = s := by
  rw [h.renumber_eq, mapNumbers_congr (g := id) hm, h.mapNumbers_id]

/-- How many lines the text has, does not depend on numbers without line feeds. -/
lemma lineCount_text (h : s.Rendered) (hnumbers : ∀ n ∈ s.numbers, '\n' ∉ n.toList) :
    Text.lineCount s.text = Text.lineCount (statementText (s.ref?.getD "") s.formula?) := by
  obtain ⟨hstep, hhyps⟩ := List.forall_mem_cons.1 hnumbers
  rw [h]
  cases s with
  | hypothesis s =>
      have hfront : '\n' ∉ ("h" ++ s.step ++ "::").toList := by
        simp only [String.toList_append, List.mem_append, not_or]
        exact ⟨⟨by decide, hstep⟩, by decide⟩
      show Text.lineCount (statementText ("h" ++ s.step ++ "::" ++ s.ref) _) = _
      rw [statementText_append, Text.lineCount_append hfront]
      rfl
  | derivation s =>
      have hfront : '\n' ∉ (s.step ++ ":" ++ ",".intercalate s.hyps ++ ":").toList := by
        have hhyps : '\n' ∉ (",".intercalate s.hyps).toList :=
          Text.lineFeed_not_mem_intercalate (by decide) hhyps
        simp only [String.toList_append, List.mem_append, not_or]
        exact ⟨⟨⟨hstep, by decide⟩, hhyps⟩, by decide⟩
      show Text.lineCount (statementText
        (s.step ++ ":" ++ ",".intercalate s.hyps ++ ":" ++ s.ref.getD "") _) = _
      rw [statementText_append, Text.lineCount_append hfront]
      rfl

end Rendered

lemma rendered_layOut (s : ProofStep) : s.layOut.Rendered := by
  cases s <;> rfl

/-- Laying a step out changes nothing if the text is rendered and its lines are counted. -/
lemma layOut_eq_self_iff {s : ProofStep} :
    s.layOut = s ↔ s.Rendered ∧ s.lineCount = Text.lineCount s.text := by
  constructor
  · intro h
    rw [← h]
    cases s <;> exact ⟨rfl, rfl⟩
  · rintro ⟨htext, hlines⟩
    cases s with
    | hypothesis s =>
        have htext : s.text = statementText s.header (some s.formula) := htext
        have hlines : s.lineCount = Text.lineCount s.text := hlines
        rw [layOut, HypothesisStep.layOut, ← htext, ← hlines]
    | derivation s =>
        have htext : s.text = statementText s.header s.formula := htext
        have hlines : s.lineCount = Text.lineCount s.text := hlines
        rw [layOut, DerivationStep.layOut, ← htext, ← hlines]

end ProofStep

end ProofSheet
