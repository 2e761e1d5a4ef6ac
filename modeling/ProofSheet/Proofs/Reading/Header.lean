import ProofSheet.Proofs.Reading.Token
import ProofSheet.Step.Header

/-!
Headers of steps: reading and writing are inverse to each other.

* `hypothesisHeader_eq_some_iff`: the header of a hypothesis step is read from exactly the texts
  that begin with it as it is written, if a blank follows or nothing;
* `hypothesisHeader?_eq_some_iff`: **a text that is such a header and nothing else** is the header
  as it is written, and its fields are a number and a word;
* `derivationHeader_eq_some_iff`: the same for a derivation step.

In both a written header ends in its reference label, so a carriage return at the end of the label
is lost when a line feed follows.
-/

namespace ProofSheet.Reading

/-! ### Reference labels -/

/-- A word that may be missing. -/
def IsWord? (ref : Option String) : Prop :=
  ∀ r ∈ ref, IsWord r

instance (ref : Option String) : Decidable (IsWord? ref) :=
  inferInstanceAs (Decidable (∀ r ∈ ref, _))

lemma optional_refField_eq_iff {s rest : List Char} {ref : Option String} :
    optional refField s = (ref, rest) ↔
      s = (ref.getD "").toList ++ rest ∧ IsWord? ref ∧
        ¬ BreaksInto (ref.getD "").toList rest ∧ (rest = [] ∨ atBlank rest = true) := by
  cases ref with
  | none =>
      rw [optional]
      split
      next a t taken =>
        refine ⟨fun h => (by cases h), ?_⟩
        rintro ⟨h, -, -, hend⟩
        rw [Option.getD_none, String.toList_empty, List.nil_append] at h
        subst h
        rw [refField, token_eq_none_iff.2 hend] at taken
        cases taken
      next taken =>
        rw [refField, token_eq_none_iff] at taken
        simp only [Prod.mk.injEq, true_and, Option.getD_none, String.toList_empty,
          List.nil_append, not_breaksInto_nil, not_false_eq_true, IsWord?]
        constructor
        · rintro rfl
          exact ⟨rfl, by simp, taken⟩
        · rintro ⟨rfl, -⟩
          rfl
  | some r =>
      simp only [Option.getD_some, IsWord?, Option.mem_def, Option.some.injEq, forall_eq']
      rw [← refField_eq_some_iff, optional]
      cases refField s <;> simp [Prod.ext_iff]

/-- A colon in front of the last field keeps it apart from the others. -/
lemma breaksInto_colon {v w rest : List Char} :
    BreaksInto (v ++ ':' :: w) rest ↔ BreaksInto w rest := by
  cases w with
  | nil => simp [BreaksInto]
  | cons c w =>
      rw [← List.singleton_append, ← List.append_assoc, breaksInto_append (List.cons_ne_nil c w)]

/-! ### Headers of hypothesis steps -/

lemma toList_ofHypothesis (step : String) (ref : Option String) :
    (Header.ofHypothesis step ref).toList =
      'h' :: (step.toList ++ ':' :: ':' :: (ref.getD "").toList) := by
  simp [Header.ofHypothesis]

lemma stepNumber_colon {step : String} (h : IsNumber step) (rest : List Char) :
    stepNumber (step.toList ++ ':' :: rest) = some (step, ':' :: rest) := by
  refine stepNumber_eq_some_iff.2 ⟨rfl, h, not_breaksInto_of_head (by decide), .inr ?_⟩
  simp [endsStepNumber, startsWith]

/-- **Reading the header of a hypothesis step** undoes writing it. -/
lemma hypothesisHeader_eq_some_iff {s rest : List Char} {step : String} {ref : Option String} :
    hypothesisHeader s = some ((step, ref), rest) ↔
      s = (Header.ofHypothesis step ref).toList ++ rest ∧ IsNumber step ∧ IsWord? ref ∧
        ¬ BreaksInto (Header.ofHypothesis step ref).toList rest ∧
        (rest = [] ∨ atBlank rest = true) := by
  have hbreaks : BreaksInto (Header.ofHypothesis step ref).toList rest ↔
      BreaksInto (ref.getD "").toList rest := by
    rw [toList_ofHypothesis, ← List.cons_append, ← List.singleton_append (l := ':' :: _),
      ← List.append_assoc, breaksInto_colon]
  rw [hbreaks, toList_ofHypothesis]
  constructor
  · intro h
    simp only [hypothesisHeader, bind, Option.bind_eq_some_iff] at h
    obtain ⟨t, ht, ⟨step', u⟩, hu, v, hv, h⟩ := h
    simp only [pure, Option.some.injEq, Prod.mk.injEq] at h
    obtain ⟨⟨rfl, href⟩, hrest⟩ := h
    obtain ⟨hs, hstep, -, -⟩ := stepNumber_eq_some_iff.1 hu
    have hu' : u = "::".toList ++ v := expect_eq_some_iff.1 hv
    obtain ⟨hv', hword, hend⟩ := optional_refField_eq_iff.1 (Prod.ext href hrest)
    refine ⟨?_, hstep, hword, hend⟩
    rw [expect_eq_some_iff.1 ht, hs, hu', hv']
    simp
  · rintro ⟨rfl, hstep, hword, hend⟩
    have href := optional_refField_eq_iff.2 ⟨rfl, hword, hend⟩
    have hcolons : expect "::" (':' :: ':' :: ((ref.getD "").toList ++ rest)) =
        some ((ref.getD "").toList ++ rest) := expect_eq_some_iff.2 rfl
    have hh : expect "h" ('h' :: (step.toList ++ ':' :: ':' :: ((ref.getD "").toList ++ rest))) =
        some (step.toList ++ ':' :: ':' :: ((ref.getD "").toList ++ rest)) :=
      expect_eq_some_iff.2 rfl
    simp only [List.cons_append, List.append_assoc, hypothesisHeader, hh, bind, Option.bind_some,
      stepNumber_colon hstep, hcolons, href, pure]

/-- The reader has to take the whole text. -/
lemma hypothesisHeader_toList_eq_some_iff {text : String} {fields : String × Option String} :
    hypothesisHeader? text = some fields ↔ hypothesisHeader text.toList = some (fields, []) := by
  rw [hypothesisHeader?]
  split
  next fields' h => simp [h]
  next h =>
    refine ⟨fun hread => (by cases hread), fun hread => ?_⟩
    exact absurd hread (h fields)

/-- **A header by itself.** The fields are read from the text exactly if it is the header that is
written for them, the number is one, and the label is a word or missing. -/
theorem hypothesisHeader?_eq_some_iff {text step : String} {ref : Option String} :
    hypothesisHeader? text = some (step, ref) ↔
      text = Header.ofHypothesis step ref ∧ IsNumber step ∧ IsWord? ref := by
  have hend : ¬ BreaksInto (Header.ofHypothesis step ref).toList [] := fun h => nomatch h.2
  rw [hypothesisHeader_toList_eq_some_iff, hypothesisHeader_eq_some_iff, List.append_nil,
    String.toList_inj]
  simp only [hend, not_false_eq_true, true_or, and_true]

/-- The number begins with another `h`, and the label has colons and a comma in it; a comma in the
number is too much. -/
example : hypothesisHeader? "hh1:::a,:b" = some ("h1", some ":a,:b") ∧
    hypothesisHeader? "h1,2::a" = none := by decide

/-! ### The numbers that a derivation step rests on -/

lemma toList_intercalate_cons (sep first : String) (more : List String) :
    (sep.intercalate (first :: more)).toList =
      first.toList ++ more.flatMap fun s => sep.toList ++ s.toList := by
  induction more generalizing first with
  | nil => simp
  | cons s more ih =>
      rw [String.intercalate_cons_cons, String.toList_append, String.toList_append, ih]
      simp

lemma nextNumber_comma (s : List Char) : nextNumber (',' :: s) = stepNumber s := rfl

lemma nextNumber_eq_some {s rest : List Char} {n : String} (h : nextNumber s = some (n, rest)) :
    s = ',' :: n.toList ++ rest ∧ IsNumber n := by
  obtain ⟨t, ht, h⟩ := Option.bind_eq_some_iff.1 h
  obtain ⟨hs, hn, -⟩ := stepNumber_eq_some_iff.1 h
  exact ⟨(expect_eq_some_iff.1 ht).trans (congrArg _ hs), hn⟩

/-- Behind a number stands a comma with the next one, or the colon behind the last. -/
lemma endsStepNumber_numbers (more : List String) (rest : List Char) :
    endsStepNumber (more.flatMap (fun n => ',' :: n.toList) ++ ':' :: rest) = true ∧
      ∀ w, ¬ BreaksInto w (more.flatMap (fun n => ',' :: n.toList) ++ ':' :: rest) := by
  cases more with
  | nil => exact ⟨by simp [endsStepNumber, startsWith], fun w => not_breaksInto_of_head (by decide)⟩
  | cons n more =>
      rw [List.flatMap_cons, List.cons_append, List.cons_append]
      exact ⟨by simp [endsStepNumber, startsWith], fun w => not_breaksInto_of_head (by decide)⟩

lemma many_nextNumber {more : List String} (h : ∀ n ∈ more, IsNumber n) (rest : List Char) :
    many nextNumber advances_nextNumber (more.flatMap (fun n => ',' :: n.toList) ++ ':' :: rest) =
      (more, ':' :: rest) := by
  refine many_flatMap (fun pre n post hmore => ?_) ?_
  · obtain ⟨hend, hbreaks⟩ := endsStepNumber_numbers post rest
    have hn : IsNumber n := h n (hmore ▸ by simp)
    rw [List.cons_append, nextNumber_comma]
    exact stepNumber_eq_some_iff.2 ⟨rfl, hn, hbreaks _, .inr hend⟩
  · rfl

/-- Reading the numbers in front of a colon undoes writing them with commas between them. -/
lemma stepNumbers_eq_iff {s rest : List Char} {hyps : List String} :
    stepNumbers s = (hyps, ':' :: rest) ↔
      s = (",".intercalate hyps).toList ++ ':' :: rest ∧ ∀ n ∈ hyps, IsNumber n := by
  constructor
  · intro h
    rw [stepNumbers] at h
    split at h
    next taken =>
      obtain ⟨rfl, rfl⟩ := Prod.mk.inj h
      exact ⟨by simp, by simp⟩
    next first t taken =>
      obtain ⟨rfl, hrest⟩ := Prod.mk.inj h
      obtain ⟨hs, hfirst, -⟩ := stepNumber_eq_some_iff.1 taken
      have ht : (many nextNumber advances_nextNumber t).1.flatMap (',' :: ·.toList) ++
          (many nextNumber advances_nextNumber t).2 = t :=
        flatMap_many (fun s n rest h => (nextNumber_eq_some h).1) t
      rw [hrest] at ht
      refine ⟨?_, List.forall_mem_cons.2 ⟨hfirst, ?_⟩⟩
      · rw [toList_intercalate_cons, List.append_assoc, hs]
        exact congrArg (first.toList ++ ·) ht.symm
      · exact forall_mem_many (fun s n rest h => (nextNumber_eq_some h).2) t
  · rintro ⟨rfl, hn⟩
    cases hyps with
    | nil =>
        have hnone : stepNumber (':' :: rest) = none := token_eq_none_iff.2 (.inr (by
          simp [endsStepNumber, startsWith]))
        rw [String.intercalate_nil, String.toList_empty, List.nil_append, stepNumbers, hnone]
    | cons first more =>
        obtain ⟨hfirst, hmore⟩ := List.forall_mem_cons.1 hn
        obtain ⟨hend, hbreaks⟩ := endsStepNumber_numbers more rest
        have hread := stepNumber_eq_some_iff.2
          ⟨rfl, hfirst, hbreaks first.toList, .inr hend⟩
        rw [toList_intercalate_cons, List.append_assoc]
        show stepNumbers (first.toList ++
          (more.flatMap (fun n => ',' :: n.toList) ++ ':' :: rest)) = _
        rw [stepNumbers, hread]
        simp only [many_nextNumber hmore]

/-! ### Headers of derivation steps -/

lemma toList_ofDerivation (step : String) (hyps : List String) (ref : Option String) :
    (Header.ofDerivation step hyps ref).toList =
      step.toList ++ ':' :: ((",".intercalate hyps).toList ++ ':' :: (ref.getD "").toList) := by
  simp [Header.ofDerivation]

/-- **Reading the header of a derivation step** undoes writing it. -/
lemma derivationHeader_eq_some_iff {s rest : List Char} {step : String} {hyps : List String}
    {ref : Option String} :
    derivationHeader s = some ((step, hyps, ref), rest) ↔
      s = (Header.ofDerivation step hyps ref).toList ++ rest ∧ IsNumber step ∧
        (∀ n ∈ hyps, IsNumber n) ∧ IsWord? ref ∧
        ¬ BreaksInto (Header.ofDerivation step hyps ref).toList rest ∧
        (rest = [] ∨ atBlank rest = true) := by
  have hbreaks : BreaksInto (Header.ofDerivation step hyps ref).toList rest ↔
      BreaksInto (ref.getD "").toList rest := by
    rw [toList_ofDerivation, ← List.cons_append, ← List.append_assoc, breaksInto_colon]
  rw [hbreaks, toList_ofDerivation]
  constructor
  · intro h
    simp only [derivationHeader, bind, Option.bind_eq_some_iff] at h
    obtain ⟨⟨step', t⟩, ht, u, hu, v, hv, h⟩ := h
    simp only [pure, Option.some.injEq, Prod.mk.injEq] at h
    obtain ⟨⟨rfl, hhyps, href⟩, hrest⟩ := h
    obtain ⟨hs, hstep, -, -⟩ := stepNumber_eq_some_iff.1 ht
    have ht' : t = ':' :: u := expect_eq_some_iff.1 hu
    have hv' : (stepNumbers u).2 = ':' :: v := expect_eq_some_iff.1 hv
    obtain ⟨hu', hnumbers⟩ := stepNumbers_eq_iff.1 (Prod.ext hhyps hv')
    obtain ⟨hv'', hword, hend⟩ := optional_refField_eq_iff.1 (Prod.ext href hrest)
    refine ⟨?_, hstep, hnumbers, hword, hend⟩
    rw [hs, ht', hu', hv'']
    simp
  · rintro ⟨rfl, hstep, hnumbers, hword, hend⟩
    have href := optional_refField_eq_iff.2 ⟨rfl, hword, hend⟩
    have hcolon (t : List Char) : expect ":" (':' :: t) = some t := expect_eq_some_iff.2 rfl
    have hhyps := stepNumbers_eq_iff.2
      ⟨rfl (a := (",".intercalate hyps).toList ++ ':' :: ((ref.getD "").toList ++ rest)), hnumbers⟩
    simp only [List.cons_append, List.append_assoc, derivationHeader, bind, Option.bind_some,
      stepNumber_colon hstep, hcolon, hhyps, href, pure]

end ProofSheet.Reading
