import ProofSheet.Proofs.Document.Claims
import ProofSheet.Proofs.Worksheet.Loading

/-!
Worksheets as they come about: loaded from a text, and then renumbered and laid out any number of
times.

* `Renumbering.Proper`: a renumbering whose new numbers can be written in a worksheet;
* `Worksheet.Edited`: the worksheets that loading and editing lead to, with renumberings of one
  kind only, and `Worksheet.Edited.forall_steps`, the induction for what holds of their steps;
* `Worksheet.Edits`: the worksheets that editing leads to from a given one, and what editing leaves
  alone.
-/

namespace ProofSheet

/-- Every new number is a step number, and begins neither like a hypothesis step nor like a
comment. -/
def Renumbering.Proper (m : Renumbering) : Prop :=
  ∀ old new, m.target? old = some new →
    Reading.IsNumber new ∧ Reading.startsWith 'h' new.toList = false ∧
      Reading.startsWith '*' new.toList = false

/-- It is enough to look at the pairs. -/
lemma Renumbering.proper_of_pairs {m : Renumbering}
    (h : ∀ pair ∈ m.pairs, Reading.IsNumber pair.2 ∧
      Reading.startsWith 'h' pair.2.toList = false ∧
        Reading.startsWith '*' pair.2.toList = false) : m.Proper :=
  fun _ _ hnew => h _ (Renumbering.mem_pairs_of_target? hnew)

/-- The worksheets that come from a text by loading it, by renumberings of a kind and by laying
the steps out. -/
inductive Worksheet.Edited (db : Database) (kind : Renumbering → Prop) : Worksheet → Prop
  | load {text : String} {sheet : Worksheet} (h : Worksheet.load db text = .ok sheet) :
      Edited db kind sheet
  | renumber {sheet : Worksheet} (h : Edited db kind sheet) {m : Renumbering} (hm : kind m) :
      Edited db kind (sheet.renumber m)
  | layOut {sheet : Worksheet} (h : Edited db kind sheet) : Edited db kind sheet.layOut

/-- What holds of every step that is read and resolved, and what editing keeps, holds of every step
of an edited worksheet. -/
lemma Worksheet.Edited.forall_steps {db : Database} {kind : Renumbering → Prop} {sheet : Worksheet}
    {P : ProofStep → Prop}
    (hload : ∀ target doc, ∀ draft : StepDraft, draft.Legible → ∀ s,
      Worksheet.stepOf db target doc draft = .ok s → P s)
    (hrenumber : ∀ m, kind m → ∀ s, P s → P (s.renumber m))
    (hlayOut : ∀ s, P s → P s.layOut) (h : Edited db kind sheet) :
    ∀ s ∈ sheet.document.steps, P s := by
  induction h with
  | load h =>
      obtain ⟨draft, hdraft, h⟩ := Worksheet.load_eq_ok_iff.1 h
      obtain ⟨label, -, -, -, h⟩ := Worksheet.ofDraft_eq_ok_iff.1 h
      exact Worksheet.forall_mem_steps_of_loadSteps
        (fun doc d hd => hload _ doc d ((Reading.legible_of_ofText? hdraft).steps d hd))
        (fun s hs => (by cases hs)) h
  | renumber _ hm ih => exact List.forall_mem_map.2 fun s hs => hrenumber _ hm s (ih s hs)
  | layOut _ ih => exact List.forall_mem_map.2 fun s hs => hlayOut s (ih s hs)

/-- The worksheets that renumberings of any kind and laying the steps out lead to. -/
inductive Worksheet.Edits (sheet : Worksheet) : Worksheet → Prop
  | refl : Edits sheet sheet
  | renumber {edited : Worksheet} (h : Edits sheet edited) (m : Renumbering) :
      Edits sheet (edited.renumber m)
  | layOut {edited : Worksheet} (h : Edits sheet edited) : Edits sheet edited.layOut

namespace Worksheet.Edits

variable {sheet edited : Worksheet}

lemma target_eq (h : sheet.Edits edited) : edited.target = sheet.target := by
  induction h with
  | refl => rfl
  | renumber _ _ ih => exact ih
  | layOut _ ih => exact ih

/-- Editing leaves alone what the steps claim. -/
lemma claims_eq (h : sheet.Edits edited) : edited.document.claims = sheet.document.claims := by
  induction h with
  | refl => rfl
  | renumber _ m ih => exact (Document.claims_renumber m _).trans ih
  | layOut _ ih => exact (Document.claims_layOut _).trans ih

end Worksheet.Edits

end ProofSheet
