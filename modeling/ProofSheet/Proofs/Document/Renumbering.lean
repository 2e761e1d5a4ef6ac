import ProofSheet.Proofs.Document.Claims

/-!
Renumbering a document. The numbers in it are pointers: a derivation step refers to a step by its
number, and means the first one that has it.

* `Document.numbers`, `Document.position?`: the numbers in a document, and where a number points;
* `Document.position?_renumber`: a renumbering that keeps the numbers in the document apart leaves
  every pointer where it points;
* `Document.renumber_keeps_pointers`: **and nothing else in the document changes**, whether the
  numbers are repeated, dangling or exchanged;
* `Document.renumber_renumber`, `Document.renumber_back`: in a rendered document two renumberings in
  a row are a single one, and one that keeps the numbers apart can be undone.
-/

namespace ProofSheet.Document

variable {doc : Document} {m : Renumbering}

/-! ### Numbers and where they point -/

/-- The numbers in the document: those of the steps, and those of the steps they rest on. -/
def numbers (doc : Document) : List String :=
  doc.steps.flatMap (·.numbers)

/-- The position of the first step with a number. -/
def position? (doc : Document) (step : String) : Option Nat :=
  doc.steps.findIdx? (·.step == step)

/-- The step that is found under a number stands at its position. -/
lemma findStep?_eq (doc : Document) (step : String) :
    doc.findStep? step = (doc.position? step).bind (doc.steps[·]?) :=
  List.find?_eq_bind_findIdx?_getElem?

lemma mem_numbers_of_mem {s : ProofStep} (hs : s ∈ doc.steps) {n : String} (hn : n ∈ s.numbers) :
    n ∈ doc.numbers :=
  List.mem_flatMap.2 ⟨s, hs, hn⟩

lemma steps_renumber (m : Renumbering) (doc : Document) :
    (doc.renumber m).steps = doc.steps.map (·.renumber m) := rfl

lemma map_numbers_renumber (m : Renumbering) (doc : Document) :
    (doc.renumber m).steps.map (·.numbers) = doc.steps.map (·.numbers.map m.apply) := by
  rw [steps_renumber, List.map_map]
  exact List.map_congr_left fun s _ => s.numbers_renumber m

lemma map_content_renumber (m : Renumbering) (doc : Document) :
    (doc.renumber m).steps.map (·.content) = doc.steps.map (·.content) := by
  rw [steps_renumber, List.map_map]
  exact List.map_congr_left fun s _ => s.content_renumber m

/-! ### Pointers -/

/-- A step has the new number if and only if it had the old one. -/
lemma step_beq_renumber (hinj : Set.InjOn m.apply {n | n ∈ doc.numbers}) {r : String}
    (hr : r ∈ doc.numbers) {s : ProofStep} (hs : s ∈ doc.steps) :
    ((s.renumber m).step == m.apply r) = (s.step == r) := by
  rw [Bool.eq_iff_iff, beq_iff_eq, beq_iff_eq, s.step_renumber]
  exact ⟨hinj (mem_numbers_of_mem hs List.mem_cons_self) hr, congrArg m.apply⟩

/-- **Every pointer points where it did.** -/
lemma position?_renumber (hinj : Set.InjOn m.apply {n | n ∈ doc.numbers}) {r : String}
    (hr : r ∈ doc.numbers) : (doc.renumber m).position? (m.apply r) = doc.position? r := by
  -- the induction is on some of the steps, since the numbers in all of them are kept apart
  have hsteps (steps : List ProofStep) (hmem : ∀ s ∈ steps, s ∈ doc.steps) :
      (steps.map (·.renumber m)).findIdx? (·.step == m.apply r) =
        steps.findIdx? (·.step == r) := by
    induction steps with
    | nil => rfl
    | cons s steps ih =>
        obtain ⟨hs, hmem⟩ := List.forall_mem_cons.1 hmem
        rw [List.map_cons, List.findIdx?_cons, List.findIdx?_cons, step_beq_renumber hinj hr hs,
          ih hmem]
  exact hsteps doc.steps fun s hs => hs

/-- What is found under the new number is the renumbered step. -/
lemma findStep?_renumber (hinj : Set.InjOn m.apply {n | n ∈ doc.numbers}) {r : String}
    (hr : r ∈ doc.numbers) :
    (doc.renumber m).findStep? (m.apply r) = (doc.findStep? r).map (·.renumber m) := by
  rw [findStep?_eq, position?_renumber hinj hr, findStep?_eq, steps_renumber, Option.map_bind]
  refine congrArg _ (funext fun i => ?_)
  rw [List.getElem?_map, Function.comp_apply]

/-- **Renumbering keeps every pointer**, if it keeps the numbers in the document apart: the new
number of a step, or of a step that one rests on, points to the same position as the old one, or
nowhere like the old one. Apart from the numbers and the texts no step changes, so the steps own the
same reference labels and stand for the same logical hypotheses. -/
theorem renumber_keeps_pointers (hinj : Set.InjOn m.apply {n | n ∈ doc.numbers}) :
    (∀ r ∈ doc.numbers, (doc.renumber m).position? (m.apply r) = doc.position? r ∧
      (doc.renumber m).findStep? (m.apply r) = (doc.findStep? r).map (·.renumber m)) ∧
    (doc.renumber m).steps.map (·.numbers) = doc.steps.map (·.numbers.map m.apply) ∧
    (doc.renumber m).steps.map (·.content) = doc.steps.map (·.content) ∧
    (∀ label, (doc.renumber m).ownsRef label = doc.ownsRef label) ∧
    ∀ id, (doc.renumber m).binds id = doc.binds id := by
  have hclaims : (doc.renumber m).claims.Perm doc.claims := .of_eq (doc.claims_renumber m)
  refine ⟨fun r hr => ?_, doc.map_numbers_renumber m, doc.map_content_renumber m, ?_, ?_⟩
  · exact ⟨position?_renumber hinj hr, findStep?_renumber hinj hr⟩
  · exact ownsRef_eq_of_perm hclaims
  · exact binds_eq_of_perm hclaims

/-- Two steps share a number, two numbers are exchanged, and one step rests on a step that is not
there. -/
theorem renumber_keeps_pointers_exchanged :
    ∃ (doc : Document) (m : Renumbering), Set.InjOn m.apply {n | n ∈ doc.numbers} ∧
      doc.texts = ["h1::a x", "2:1,9:b y", "1:2: z"] ∧
      (doc.renumber m).texts = ["h2::a x", "1:2,9:b y", "2:1: z"] ∧
      (doc.renumber m).position? "2" = some 0 ∧ (doc.renumber m).position? "1" = some 1 ∧
      (doc.renumber m).position? "9" = none ∧ (doc.renumber m).ownsRef "b" = true := by
  have hnumbers : ∀ k ∈ ["1", "2", "1", "9", "1", "2"], ∀ n ∈ ["1", "2", "1", "9", "1", "2"],
      Renumbering.apply ⟨[("1", "2"), ("2", "1")]⟩ k =
        Renumbering.apply ⟨[("1", "2"), ("2", "1")]⟩ n → k = n := by decide
  have hinj : Set.InjOn (Renumbering.apply ⟨[("1", "2"), ("2", "1")]⟩)
      {n | n ∈ numbers ⟨[.hypothesis (.ofFields "1" "a" ⟨["x"]⟩ (.leaf "x") none),
        .derivation (.ofFields "2" ["1", "9"] (some "b") (some ⟨["y"]⟩)),
        .derivation (.ofFields "1" ["2"] none (some ⟨["z"]⟩))]⟩} :=
    fun k hk n hn => hnumbers k hk n hn
  obtain ⟨hpointers, -, -, howns, -⟩ := renumber_keeps_pointers hinj
  refine ⟨_, _, hinj, by decide +kernel, by decide +kernel, ?_, ?_, ?_, ?_⟩
  · exact (hpointers "1" (by decide)).1.trans (by decide)
  · exact (hpointers "2" (by decide)).1.trans (by decide)
  · exact (hpointers "9" (by decide)).1.trans (by decide)
  · exact (howns "b").trans (by decide)

/-! ### Rendered documents -/

/-- Every text in the document is what the fields of its step are written as. -/
def Rendered (doc : Document) : Prop :=
  ∀ s ∈ doc.steps, s.Rendered

/-- Two renumberings in a row are a single one. -/
lemma renumber_renumber (h : doc.Rendered) (m m' : Renumbering) :
    (doc.renumber m).renumber m' = doc.renumber (m.andThen m') := by
  rw [renumber, steps_renumber, List.map_map, renumber]
  exact congrArg mk (List.map_congr_left fun s hs => (h s hs).renumber_renumber m m')

/-- A renumbering under which the numbers in the document stay as they are changes nothing. -/
lemma renumber_eq_self (h : doc.Rendered) (hm : ∀ n ∈ doc.numbers, m.apply n = n) :
    doc.renumber m = doc := by
  have hsteps : doc.steps.map (·.renumber m) = doc.steps :=
    (List.map_congr_left fun s hs => (h s hs).renumber_eq_self fun n hn =>
      hm n (mem_numbers_of_mem hs hn)).trans (List.map_id _)
  rw [renumber, hsteps]

/-- **The way back** of a renumbering that keeps the numbers in the document apart restores it. -/
lemma renumber_back (h : doc.Rendered) (hinj : Set.InjOn m.apply {n | n ∈ doc.numbers}) :
    (doc.renumber m).renumber (m.back doc.numbers) = doc := by
  rw [renumber_renumber h]
  refine renumber_eq_self h fun n hn => ?_
  rw [Renumbering.apply_andThen, Renumbering.back_apply hinj hn]

end ProofSheet.Document
