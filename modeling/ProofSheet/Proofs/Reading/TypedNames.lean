import ProofSheet.Proofs.Label
import ProofSheet.Proofs.Reading.CommandText

/-!
Names that are typed into commands as they stand, and what the commands make of them.

* `IsTypedStep`, `IsTypedWord`: what a step number and a label may be made of where a command is
  typed, by their characters (`isToken_of_isTypedStep`, `isToken_of_isTypedWord`);
* `ofText?_renumber`, `ofText?_renumber_nothing`: a renumbering of one step. The command gets its
  two numbers without the white space at their ends;
* `ofText?_hyp`, `ofText?_theorem`: a hypothesis, and a theorem that rests on it. The label of a
  statement loses the white space at its ends, and a label among the hypotheses keeps it.
-/

namespace ProofSheet

open Reading

namespace Reading

variable {stop stop' : List Char → Bool} {c : Char} {s t u w rest : List Char} {x y : String}
  {formula : Formula} {command : Command}

/-! ### What a token is made of -/

lemma passes_or :
    Passes (fun s => stop s || stop' s) w rest ↔ Passes stop w rest ∧ Passes stop' w rest := by
  induction w with
  | nil => simp [Passes]
  | cons d w ih =>
      rw [Passes, ih, Bool.or_eq_false_iff, Passes, Passes]
      exact and_and_and_comm

lemma passes_startsWith_iff : Passes (startsWith c) w rest ↔ c ∉ w := by
  induction w with
  | nil => simp [Passes]
  | cons d w ih =>
      rw [Passes, ih, startsWith, List.head?_cons, beq_eq_false_iff_ne, ne_eq, Option.some.injEq,
        List.mem_cons, not_or, eq_comm]

lemma passes_expect_iff {word : String} (hword : word ≠ "") :
    Passes (fun s => (expect word s).isSome) w [] ↔ ¬ word.toList <:+: w := by
  induction w with
  | nil => simpa [Passes] using hword
  | cons d w ih =>
      rw [Passes, ih, List.append_nil, List.infix_cons_iff, not_or, Option.isSome_eq_false_iff,
        Option.isNone_iff_eq_none, Option.eq_none_iff_forall_ne_some]
      refine and_congr_left fun _ => ?_
      simp only [ne_eq, expect_eq_some_iff, List.IsPrefix, not_exists]
      exact forall_congr' fun _ => not_congr eq_comm

/-- The step numbers that can be typed into a command. -/
def IsTypedStep (x : String) : Prop :=
  Blankless x.toList ∧ ';' ∉ x.toList ∧ ',' ∉ x.toList ∧ ¬ "=>".toList <:+: x.toList

/-- The words that can be typed into a command. -/
def IsTypedWord (x : String) : Prop :=
  x ≠ "" ∧ Blankless x.toList ∧ ';' ∉ x.toList ∧ '[' ∉ x.toList ∧ ']' ∉ x.toList

instance (x : String) : Decidable (IsTypedStep x) :=
  inferInstanceAs (Decidable (_ ∧ _))

instance (x : String) : Decidable (IsTypedWord x) :=
  inferInstanceAs (Decidable (_ ∧ _))

lemma passes_atBlank_nil_iff : Passes atBlank w [] ↔ Blankless w := by
  rw [passes_atBlank_iff]
  exact and_iff_left fun h => nomatch h.2

lemma isToken_of_isTypedStep (hx : x ≠ "") (h : IsTypedStep x) : IsToken endsStepWord x := by
  obtain ⟨hblank, hsemicolon, hcomma, harrow⟩ := h
  refine ⟨hx, passes_or.2 ⟨passes_or.2 ⟨passes_or.2 ⟨?_, ?_⟩, ?_⟩, ?_⟩⟩
  · exact passes_atBlank_nil_iff.2 hblank
  · exact passes_startsWith_iff.2 hsemicolon
  · exact passes_startsWith_iff.2 hcomma
  · exact (passes_expect_iff (by decide)).2 harrow

lemma isToken_of_isTypedWord (h : IsTypedWord x) : IsToken endsWord x := by
  obtain ⟨hx, hblank, hsemicolon, hopen, hclose⟩ := h
  refine ⟨hx, passes_or.2 ⟨passes_or.2 ⟨passes_or.2 ⟨?_, ?_⟩, ?_⟩, ?_⟩⟩
  · exact passes_atBlank_nil_iff.2 hblank
  · exact passes_startsWith_iff.2 hsemicolon
  · exact passes_startsWith_iff.2 hopen
  · exact passes_startsWith_iff.2 hclose

/-- A well-formed label can be typed into a command. -/
lemma isTypedWord_of_isWellFormed (h : Label.isWellFormed x = true) : IsTypedWord x := by
  obtain ⟨hne, hblank⟩ := Label.isWord_of_isWellFormed h
  exact ⟨hne, hblank, Label.not_mem_of_isWellFormed h (by decide),
    Label.not_mem_of_isWellFormed h (by decide), Label.not_mem_of_isWellFormed h (by decide)⟩

/-! ### A renumbering of one step -/

/-- A text that is one command with its semicolon. -/
lemma ofText?_of_takes {text : String} (htext : text.toList = s) (hs : atBlank s = false)
    (h : Takes s [';'] command) : Command.ofText? text = some command := by
  rw [Command.ofText?, htext, skipBlanks_eq_self hs, anyCommand_eq_some_iff.2 h]
  rfl

/-- How a renumbering of one step is typed. -/
def renumberText (old new : String) : String :=
  "renumber " ++ old ++ "=>" ++ new ++ ";"

lemma toList_renumberText (old new : String) :
    (renumberText old new).toList = "renumber".toList ++ ' ' :: (pairText (old, new) ++ [';']) := by
  simp only [renumberText, pairText, String.toList_append, List.append_assoc, List.cons_append]
  rfl

/-- A renumbering of one step is read, without the white space at the ends of the two numbers. -/
lemma ofText?_renumber (hx : IsToken endsStepWord x) (hy : IsToken endsStepWord y) :
    Command.ofText? (renumberText x y) =
      some (.sheet (.renumber ⟨[(Text.trim x, Text.trim y)]⟩)) := by
  have hpair := renumberPair_tokens hx hy (.inr rfl) []
  have hblank : atBlank (pairText (x, y) ++ [';']) = false := by
    rw [pairText, List.append_assoc]
    exact hx.atBlank_eq_false_of_stepWord rfl _
  refine ofText?_of_takes (toList_renumberText x y) rfl ?_
  have hmany : many nextRenumberPair advances_nextRenumberPair [';'] = ([], [';']) :=
    many_of_none rfl
  simp only [Takes, renumberCommand, expect_append, bind, Option.bind_some, blanks?_space hblank,
    hpair, hmany, pure]

/-- Without its old number it is not read. -/
lemma ofText?_renumber_nothing (new : String) : Command.ofText? (renumberText "" new) = none := by
  rw [Command.ofText?, toList_renumberText]
  rfl

/-! ### A hypothesis and a theorem that rests on it -/

/-- What is read as a formula up to its end is read up to a semicolon behind it. -/
lemma commandFormula_append (h : commandFormula s = some (formula, [])) (t : List Char) :
    atBlank (s ++ ';' :: t) = false ∧
      commandFormula (s ++ ';' :: t) = some (formula, ';' :: t) := by
  have hs : ';' ∉ s := by
    intro hmem
    obtain ⟨u, v, rfl, hu⟩ := List.eq_append_cons_of_mem hmem
    rw [confined_commandFormula.append u v hu] at h
    obtain ⟨⟨found, rest⟩, -, heq⟩ := Option.map_eq_some_iff.1 h
    exact List.append_ne_nil_of_right_ne_nil rest (List.cons_ne_nil _ _) (Prod.mk.inj heq).2
  have hread : commandFormula (s ++ ';' :: t) = some (formula, ';' :: t) := by
    rw [confined_commandFormula.append s t hs, h]
    rfl
  refine ⟨Bool.eq_false_iff.2 fun hblank => ?_, hread⟩
  obtain ⟨first, hfirst, -⟩ := Option.bind_eq_some_iff.1 hread
  rw [mathSymbol] at hfirst
  split at hfirst
  · cases hfirst
  · rw [token_eq_none_iff.2 (.inr (by rw [endsMathSymbol, hblank]; rfl))] at hfirst
    cases hfirst

/-- How a hypothesis is typed. -/
def hypText (label formula : String) : String :=
  "hyp " ++ label ++ " " ++ formula ++ ";"

/-- How a theorem that rests on one hypothesis is typed. -/
def theoremText (label hyp formula : String) : String :=
  "theorem " ++ label ++ " [" ++ hyp ++ "] " ++ formula ++ ";"

section Typed

variable {text : String} (hx : IsToken endsWord x)
  (hformula : commandFormula text.toList = some (formula, []))
include hx hformula

/-- The label of a hypothesis loses the white space at its ends. -/
lemma ofText?_hyp :
    Command.ofText? (hypText x text) = some (.database (.logHyp (Text.trim x) formula)) := by
  obtain ⟨hblank, hread⟩ := commandFormula_append hformula []
  have htext : (hypText x text).toList =
      "hyp".toList ++ ' ' :: (x.toList ++ ' ' :: (text.toList ++ [';'])) := by
    simp only [hypText, String.toList_append, List.append_assoc]
    rfl
  refine ofText?_of_takes htext rfl ?_
  simp only [Takes, labelledFormula, expect_append, bind, Option.bind_some, nextWord_space hx,
    blanks?_space hblank, hread, pure]

/-- The label among the hypotheses is kept as it was typed. -/
lemma ofText?_theorem (hy : IsToken endsWord y) :
    Command.ofText? (theoremText y x text) =
      some (.database (.provable (Text.trim y) [x] formula)) := by
  obtain ⟨hblank, hread⟩ := commandFormula_append hformula []
  obtain ⟨hhyps, hwords⟩ := words_intercalate (List.forall_mem_singleton.2 hx)
    (' ' :: (text.toList ++ [';']))
  rw [String.intercalate_singleton] at hhyps hwords
  have htext : (theoremText y x text).toList = "theorem".toList ++ ' ' :: (y.toList ++ ' ' :: '[' ::
      (x.toList ++ ']' :: ' ' :: (text.toList ++ [';']))) := by
    simp only [theoremText, String.toList_append, List.append_assoc]
    rfl
  have hopen (u : List Char) : expect "[" (skipBlanks (' ' :: '[' :: u)) = some u :=
    expect_append "[" u
  have hclose (u : List Char) : expect "]" (skipBlanks (']' :: u)) = some u :=
    expect_append "]" u
  refine ofText?_of_takes htext rfl ?_
  simp only [Takes, provableCommand, expect_append, bind, Option.bind_some, nextWord_space hy,
    hopen, skipBlanks_eq_self hhyps, hwords, hclose, skipBlanks_space hblank, hread, pure]

end Typed

end Reading

end ProofSheet
