import ProofSheet.Proofs.Reading.Sheet

/-!
The layouts of statements and comments: which texts say the same as one draft.

* `SymbolsText`, `StatementText`, `CommentText`: how the symbols of a formula, a statement and a
  comment may be laid out;
* `many_nextSymbol_symbolsText`, `statement_statementText`: **a statement is read from each of its
  layouts**, if what is behind it does not continue its formula;
* `exists_comment_commentText`: a comment reaches to a line break, or further on, if lines behind it
  continue it.

Tokens must not hold carriage returns here, since a layout may put a line feed behind each of them.
-/

namespace ProofSheet

open Reading

/-! ### The tokens of drafts -/

/-- The header of a draft as it is written. -/
def StepDraft.header : StepDraft → String
  | hypothesis draft => Header.ofHypothesis draft.step draft.ref
  | derivation draft => Header.ofDerivation draft.step draft.hyps draft.ref

/-- The symbols of a draft, none if it has no formula. -/
def StepDraft.symbols : StepDraft → List String
  | hypothesis draft => symbolsOf draft.formula
  | derivation draft => symbolsOf draft.formula

/-- The tokens of a draft. -/
def StepDraft.tokens : StepDraft → List String
  | hypothesis draft => draft.step :: draft.ref.toList ++ symbolsOf draft.formula
  | derivation draft => draft.step :: draft.hyps ++ draft.ref.toList ++ symbolsOf draft.formula

namespace Reading

variable {s t v rest b c g text : List Char} {d : StepDraft} {w : String} {xs : List String}

/-! ### Symbols with gaps in front of them -/

/-- The symbols, with a gap in front of each. -/
inductive SymbolsText : List String → List Char → Prop
  | nil : SymbolsText [] []
  | cons {x : String} {xs : List String} {g s : List Char} (hg : Gap g) (h : SymbolsText xs s) :
      SymbolsText (x :: xs) (g ++ (x.toList ++ s))

lemma not_breaksInto_of_not_mem (h : '\r' ∉ s) (rest : List Char) : ¬ BreaksInto s rest :=
  fun hb => h (List.mem_of_getLast? hb.1)

lemma atBlank_symbolsText (h : SymbolsText xs s) (hrest : atBlank rest = true) :
    atBlank (s ++ rest) = true := by
  cases h with
  | nil => exact hrest
  | cons hg h =>
      rw [List.append_assoc]
      exact atBlank_of_atGap (hg.skipGap_append _).1

/-- A symbol is read from behind its gap. -/
lemma nextSymbol_gap (hg : Gap g) (hx : IsSymbol w) (hreturn : '\r' ∉ w.toList)
    (hrest : atBlank rest = true) : nextSymbol (g ++ (w.toList ++ rest)) = some (w, rest) := by
  have hbreaks := not_breaksInto_of_not_mem hreturn rest
  have hgap : atGap (w.toList ++ rest) = false :=
    Bool.eq_false_iff.2 fun h =>
      Bool.false_ne_true ((atBlank_word hx.1 hbreaks).symm.trans (atBlank_of_atGap h))
  obtain ⟨hat, hskip⟩ := hg.skipGap_append (w.toList ++ rest)
  rw [nextSymbol, gap?, hat, if_pos rfl, hskip, skipGap_eq_self hgap]
  exact symbol_eq_some_iff.2 ⟨rfl, hx, hbreaks, .inr hrest⟩

/-- Symbols are read from every layout, if no symbol follows the last. -/
lemma many_nextSymbol_symbolsText (h : SymbolsText xs s) (hxs : ∀ x ∈ xs, IsSymbol x)
    (hreturn : ∀ x ∈ xs, '\r' ∉ x.toList) (hrest : atBlank rest = true)
    (hnone : nextSymbol rest = none) :
    many nextSymbol advances_nextSymbol (s ++ rest) = (xs, rest) := by
  induction h with
  | nil => exact many_of_none hnone
  | @cons x xs g s hg h ih =>
      obtain ⟨hx, hxs⟩ := List.forall_mem_cons.1 hxs
      obtain ⟨hxreturn, hreturn⟩ := List.forall_mem_cons.1 hreturn
      have hread := nextSymbol_gap hg hx hxreturn (atBlank_symbolsText h hrest)
      rw [List.append_assoc, List.append_assoc, many_of_some hread, ih hxs hreturn]

lemma optional_nextFormula_symbolsText {formula : Option Formula}
    (h : SymbolsText (symbolsOf formula) s) (hf : ∀ f ∈ formula, IsFormula f)
    (hreturn : ∀ x ∈ symbolsOf formula, '\r' ∉ x.toList) (hrest : atBlank rest = true)
    (hnone : nextSymbol rest = none) :
    optional nextFormula (s ++ rest) = (formula, rest) :=
  (optional_nextFormula_eq_iff hf).2
    (many_nextSymbol_symbolsText h (isSymbol_of_mem_symbolsOf hf) hreturn hrest hnone)

/-! ### Statements -/

/-- A statement: the header of the draft, and its symbols behind it. -/
def StatementText (d : StepDraft) (s : List Char) : Prop :=
  ∃ symbols, SymbolsText d.symbols symbols ∧ s = d.header.toList ++ symbols

/-- A header ends in its reference label, or in the colon in front of it. -/
lemma not_breaksInto_ref {ref : Option String} (h : ∀ r ∈ ref, '\r' ∉ r.toList)
    (v rest : List Char) : ¬ BreaksInto (v ++ ':' :: (ref.getD "").toList) rest := by
  rw [breaksInto_colon]
  cases ref with
  | none => exact not_breaksInto_nil rest
  | some r => exact not_breaksInto_of_not_mem (h r rfl) rest

lemma hypothesisStatement_symbolsText {draft : HypothesisDraft} (hd : draft.Legible)
    (hreturn : ∀ w ∈ (StepDraft.hypothesis draft).tokens, '\r' ∉ w.toList)
    (h : SymbolsText (symbolsOf draft.formula) s) (hrest : atBlank rest = true)
    (hnone : nextSymbol rest = none) (size : Nat) :
    ∃ caret, hypothesisStatement size
      ((Header.ofHypothesis draft.step draft.ref).toList ++ (s ++ rest)) =
        some ({ draft with caret }, rest) := by
  have href (r : String) (hr : r ∈ draft.ref) : '\r' ∉ r.toList :=
    hreturn r (by simp [StepDraft.tokens, Option.mem_def.1 hr])
  have hheader : ¬ BreaksInto (Header.ofHypothesis draft.step draft.ref).toList (s ++ rest) := by
    simpa [toList_ofHypothesis] using
      not_breaksInto_ref href ('h' :: (draft.step.toList ++ [':'])) (s ++ rest)
  have hfields := hypothesisHeader_eq_some_iff.2
    ⟨rfl, hd.step, hd.ref, hheader, .inr (atBlank_symbolsText h hrest)⟩
  have hformula := optional_nextFormula_symbolsText h hd.formula
    (fun x hx => hreturn x (by simp [StepDraft.tokens, hx])) hrest hnone
  refine ⟨caretOf size ((Header.ofHypothesis draft.step draft.ref).toList ++ (s ++ rest)) rest, ?_⟩
  simp only [hypothesisStatement, hfields, bind, Option.bind_some, hformula, pure, ← hd.tree]

lemma derivationStatement_symbolsText {draft : DerivationDraft} (hd : draft.Legible)
    (hreturn : ∀ w ∈ (StepDraft.derivation draft).tokens, '\r' ∉ w.toList)
    (h : SymbolsText (symbolsOf draft.formula) s) (hrest : atBlank rest = true)
    (hnone : nextSymbol rest = none) (size : Nat) :
    ∃ caret, derivationStatement size
      ((Header.ofDerivation draft.step draft.hyps draft.ref).toList ++ (s ++ rest)) =
        some ({ draft with caret }, rest) := by
  have href (r : String) (hr : r ∈ draft.ref) : '\r' ∉ r.toList :=
    hreturn r (by simp [StepDraft.tokens, Option.mem_def.1 hr])
  have hheader :
      ¬ BreaksInto (Header.ofDerivation draft.step draft.hyps draft.ref).toList (s ++ rest) := by
    simpa [toList_ofDerivation] using not_breaksInto_ref href
      (draft.step.toList ++ ':' :: (",".intercalate draft.hyps).toList) (s ++ rest)
  have hfields := derivationHeader_eq_some_iff.2
    ⟨rfl, hd.step, hd.hyps, hd.ref, hheader, .inr (atBlank_symbolsText h hrest)⟩
  have hformula := optional_nextFormula_symbolsText h hd.formula
    (fun x hx => hreturn x (by simp [StepDraft.tokens, hx])) hrest hnone
  refine ⟨caretOf size
    ((Header.ofDerivation draft.step draft.hyps draft.ref).toList ++ (s ++ rest)) rest, ?_⟩
  simp only [derivationStatement, hfields, bind, Option.bind_some, hformula, pure]

/-- **A statement is read from each of its layouts**, if no symbol follows it. -/
lemma statement_statementText (hd : d.Legible) (hreturn : ∀ w ∈ d.tokens, '\r' ∉ w.toList)
    (h : StatementText d s) (hrest : atBlank rest = true) (hnone : nextSymbol rest = none)
    (size : Nat) :
    ∃ caret, statement size (s ++ rest) = some (some (d.placed caret), rest) := by
  obtain ⟨symbols, h, rfl⟩ := h
  rw [List.append_assoc, statement]
  cases d with
  | hypothesis draft =>
      obtain ⟨caret, hread⟩ := hypothesisStatement_symbolsText hd hreturn h hrest hnone size
      have hcomment : comment ((StepDraft.hypothesis draft).header.toList ++ (symbols ++ rest)) =
          none := by
        rw [comment_eq_none_iff, StepDraft.header, toList_ofHypothesis]
        rfl
      refine ⟨caret, ?_⟩
      rw [hcomment, StepDraft.header, hread]
      rfl
  | derivation draft =>
      obtain ⟨caret, hread⟩ := derivationStatement_symbolsText hd hreturn h hrest hnone size
      have hcomment : comment ((StepDraft.derivation draft).header.toList ++ (symbols ++ rest)) =
          none := by
        rw [comment_eq_none_iff, StepDraft.header, toList_ofDerivation, List.append_assoc,
          startsWith_append hd.step.1.toList_ne_nil]
        exact hd.not_comment
      have hhyp : hypothesisStatement size
          ((StepDraft.derivation draft).header.toList ++ (symbols ++ rest)) = none := by
        rw [StepDraft.header, hypothesisStatement, hypothesisHeader_derivation hd]
        rfl
      refine ⟨caret, ?_⟩
      rw [hcomment, hhyp, StepDraft.header, hread]
      rfl

/-- No blank is where a statement begins. -/
lemma atBlank_statementText (hd : d.Legible) (h : StatementText d s) (rest : List Char) :
    atBlank (s ++ rest) = false := by
  obtain ⟨symbols, -, rfl⟩ := h
  cases d with
  | hypothesis draft =>
      rw [StepDraft.header, toList_ofHypothesis]
      rfl
  | derivation draft =>
      rw [StepDraft.header, toList_ofDerivation, List.append_assoc, List.append_assoc]
      exact atBlank_word hd.step.1 (not_breaksInto_of_head (by decide))

/-! ### Comments -/

/-- A comment: an asterisk with any text on the rest of its line, and lines that continue it, which
begin with spaces or tabs. -/
inductive CommentText : List Char → Prop
  | line {text : List Char} (ht : '\n' ∉ text) : CommentText ('*' :: text)
  | continued {c b s text : List Char} (h : CommentText c) (hb : LineBreak b) (hs : Spaces s)
      (hne : s ≠ []) (ht : '\n' ∉ text) : CommentText (c ++ (b ++ (s ++ text)))

/-- The end of a line is found, even if a carriage return at the end of its text goes with it. -/
lemma afterBreak?_skipLine (ht : '\n' ∉ text) (hb : LineBreak b) (t : List Char) :
    afterBreak? (skipLine (text ++ (b ++ t))) = some t := by
  induction text with
  | nil => cases hb <;> rfl
  | cons c text ih =>
      rw [List.mem_cons, not_or] at ht
      rw [skipLine, List.cons_append, dropUntil]
      split
      next hbreak =>
        rw [atBreak_cons, Bool.or_eq_true, beq_iff_eq, Bool.and_eq_true, beq_iff_eq] at hbreak
        obtain hc | ⟨rfl, hhead⟩ := hbreak
        · exact absurd hc.symm ht.1
        · cases text with
          | nil => cases hb with
            | feed => rfl
            | returnFeed => cases hhead
          | cons d text =>
              rw [List.cons_append, startsWith, List.head?_cons, beq_iff_eq,
                Option.some.injEq] at hhead
              exact absurd hhead.symm (not_or.1 (mt List.mem_cons.2 ht.2)).1
      · exact ih ht.2

/-- A line behind a comment that begins with spaces continues it, up to its end. -/
lemma exists_continuation {u : List Char} (hs : Spaces s) (hne : s ≠ []) (ht : '\n' ∉ text)
    (hb : LineBreak b) (hu : afterBreak? u = some (s ++ (text ++ (b ++ t)))) :
    ∃ v, continuation u = some ((), v) ∧ afterBreak? v = some t := by
  have hspaces : spaces? (s ++ (text ++ (b ++ t))) =
      some (text.dropWhile isSpace ++ (b ++ t)) := by
    rw [spaces?_append hs hne, skipSpaces, List.dropWhile_append]
    split
    next hempty =>
      rw [List.isEmpty_iff.1 hempty, List.nil_append]
      exact congrArg some (skipSpaces_eq_self (atSpace_lineBreak hb t))
    · rfl
  have ht' : '\n' ∉ text.dropWhile isSpace :=
    fun h => ht ((List.dropWhile_suffix _).subset h)
  refine ⟨_, ?_, afterBreak?_skipLine ht' hb t⟩
  simp only [continuation, hu, hspaces, bind, Option.bind_some, pure]

/-- **A comment reaches to a line break**, the one behind its text or one further on, if the lines
behind it continue it. -/
lemma exists_comment_commentText (h : CommentText c) (hb : LineBreak b) (t : List Char) :
    ∃ u, afterBreak? u = some t ∧
      comment (c ++ (b ++ t)) = some (many continuation advances_continuation u).2 := by
  induction h generalizing b t with
  | @line text ht => exact ⟨skipLine (text ++ (b ++ t)), afterBreak?_skipLine ht hb t, rfl⟩
  | @continued c b' s text _ hb' hs hne ht ih =>
      obtain ⟨u, hu, hread⟩ := ih hb' (s ++ (text ++ (b ++ t)))
      obtain ⟨v, hv, hbreak⟩ := exists_continuation hs hne ht hb hu
      refine ⟨v, hbreak, ?_⟩
      rw [many_of_some hv] at hread
      simpa only [List.append_assoc] using hread

/-- A comment begins with its asterisk. -/
lemma atBlank_commentText (h : CommentText c) (rest : List Char) :
    atBlank (c ++ rest) = false := by
  induction h generalizing rest with
  | line => rfl
  | continued _ _ _ _ _ ih =>
      rw [List.append_assoc]
      exact ih _

end Reading

end ProofSheet
