import ProofSheet.Proofs.Reading.CommandForm

/-!
Commands and the texts they are written as.

* `takes_toText`: **a legible command whose names are not empty is read back** from the text that it
  is written as;
* `name_ne_of_takes`: a command with an empty name is not, since another token is read in its
  place, or none;
* `Command.ofText?_toText_iff`: both together, for every command that a text holds.
-/

namespace ProofSheet

open Reading

/-- The labels, paths, directories and step numbers that a command holds. -/
def Command.names : Command → List String
  | .database (.symbols _) => []
  | .database (.logHyp label _) => [label]
  | .database (.axiomatic label _) => [label]
  | .database (.provable label hyps _) => label :: hyps
  | .load path => [path]
  | .sheet (.display _) => []
  | .sheet (.renumber renumbering) => renumbering.pairs.flatMap fun pair => [pair.1, pair.2]
  | .sheet (.exportTo dir) => dir.toList

namespace Reading

variable {s t rest : List Char} {x label path : String} {formula : Formula} {command : Command}

/-! ### How commands are written -/

/-- What is behind the keyword where a label and a formula are written. -/
def labelledText (label : String) (formula : Formula) : List Char :=
  ' ' :: (label.toList ++ ' ' :: formula.toText.toList)

/-- How two step numbers are written with an arrow between them. -/
def pairText (pair : String × String) : List Char :=
  pair.1.toList ++ '=' :: '>' :: pair.2.toList

/-- Words with spaces between them: the first, and the others with a space in front of each. -/
lemma toList_intercalate_space (first : String) (more : List String) :
    (" ".intercalate (first :: more)).toList = first.toList ++ spaced more :=
  toList_intercalate_cons " " first more

lemma toList_formula (first : String) (more : List String) :
    (Formula.mk (first :: more)).toText.toList = first.toList ++ spaced more :=
  toList_intercalate_space first more

lemma toList_symbols {names : List String} (h : names ≠ []) :
    (DatabaseCommand.symbols names).toText.toList = "symbol".toList ++ spaced names := by
  cases names with
  | nil => exact absurd rfl h
  | cons first more =>
      rw [DatabaseCommand.toText, String.toList_append, toList_intercalate_space]
      rfl

lemma toList_logHyp (label : String) (formula : Formula) :
    (DatabaseCommand.logHyp label formula).toText.toList =
      "hyp".toList ++ labelledText label formula := by
  simp only [DatabaseCommand.toText, String.toList_append, List.append_assoc]
  rfl

lemma toList_axiomatic (label : String) (formula : Formula) :
    (DatabaseCommand.axiomatic label formula).toText.toList =
      "axiom".toList ++ labelledText label formula := by
  simp only [DatabaseCommand.toText, String.toList_append, List.append_assoc]
  rfl

lemma toList_provable (label : String) (hyps : List String) (formula : Formula) :
    (DatabaseCommand.provable label hyps formula).toText.toList =
      "theorem".toList ++ ' ' :: (label.toList ++ ' ' :: '[' ::
        ((" ".intercalate hyps).toList ++ ']' :: ' ' :: formula.toText.toList)) := by
  simp only [DatabaseCommand.toText, String.toList_append, List.append_assoc]
  rfl

lemma toList_renumber (first : String × String) (more : List (String × String)) :
    (SheetCommand.renumber ⟨first :: more⟩).toText.toList =
      "renumber".toList ++ ' ' :: (pairText first ++
        more.flatMap fun pair => ',' :: ' ' :: pairText pair) := by
  have hpair (pair : String × String) :
      (pair.1 ++ "=>" ++ pair.2).toList = pairText pair := by
    rw [String.toList_append, String.toList_append, List.append_assoc]
    rfl
  rw [SheetCommand.toText, List.map_cons, String.toList_append, toList_intercalate_cons,
    List.flatMap_map, hpair]
  simp only [hpair]
  rfl

lemma toList_exportTo (path : String) :
    (SheetCommand.exportTo (some path)).toText.toList = "export".toList ++ ' ' :: path.toList := by
  rw [SheetCommand.toText, String.toList_append]
  rfl

lemma toList_load (path : String) :
    (Command.load path).toText.toList = "load".toList ++ ' ' :: path.toList := by
  rw [Command.toText, String.toList_append]
  rfl

/-! ### Reading what is written -/

lemma mathSymbol_append (hx : IsMathSymbol x) {e : Char} (he : e = ' ' ∨ e = ';')
    (u : List Char) :
    atBlank (x.toList ++ e :: u) = false ∧ mathSymbol (x.toList ++ e :: u) = some (x, e :: u) := by
  have hjoin : joins e = false := by rcases he with rfl | rfl <;> rfl
  have hstop : endsMathSymbol (e :: u) = true := by rcases he with rfl | rfl <;> rfl
  refine ⟨hx.1.atBlank_eq_false looksAhead_endsMathSymbol (fun s hs => ?_) hjoin u, ?_⟩
  · rw [endsMathSymbol, hs, Bool.true_or]
  · rw [mathSymbol, startsWith_append (mt String.toList_eq_nil_iff.1 hx.1.1), hx.2]
    exact token_of_isToken looksAhead_endsMathSymbol hx.1 hjoin hstop

lemma word_append (hx : IsToken endsWord x) {e : Char} (he : e = ' ' ∨ e = ']')
    (u : List Char) :
    atBlank (x.toList ++ e :: u) = false ∧ word (x.toList ++ e :: u) = some (x, e :: u) := by
  have hjoin : joins e = false := by rcases he with rfl | rfl <;> rfl
  have hstop : endsWord (e :: u) = true := by rcases he with rfl | rfl <;> rfl
  refine ⟨hx.atBlank_eq_false looksAhead_endsWord (fun s hs => ?_) hjoin u, ?_⟩
  · rw [endsWord, hs]
    rfl
  · exact token_of_isToken looksAhead_endsWord hx hjoin hstop

/-- The first of some math symbols is read where it stands, and the others behind it. -/
lemma mathSymbols_spaced {first : String} {more : List String}
    (h : ∀ x ∈ first :: more, IsMathSymbol x) (t : List Char) :
    atBlank (first.toList ++ (spaced more ++ ';' :: t)) = false ∧
      mathSymbol (first.toList ++ (spaced more ++ ';' :: t)) =
        some (first, spaced more ++ ';' :: t) ∧
      many nextMathSymbol advances_nextMathSymbol (spaced more ++ ';' :: t) = (more, ';' :: t) := by
  obtain ⟨hfirst, hmore⟩ := List.forall_mem_cons.1 h
  have hmany := many_spaced advances_nextMathSymbol (fun _ => rfl)
    (fun x hx e u he => mathSymbol_append (hmore x hx) he u) (rfl : atBlank (';' :: t) = false)
  obtain ⟨e, u, heu, he⟩ := exists_spaced_append more ';' t
  rw [heu] at hmany ⊢
  obtain ⟨hblank, hread⟩ := mathSymbol_append hfirst he u
  exact ⟨hblank, hread, hmany⟩

lemma symbolsCommand_spaced {names : List String} (hne : names ≠ [])
    (h : ∀ x ∈ names, IsMathSymbol x) (t : List Char) :
    symbolsCommand ("symbol".toList ++ (spaced names ++ ';' :: t)) =
      some (.symbols names, ';' :: t) := by
  cases names with
  | nil => exact absurd rfl hne
  | cons first more =>
      obtain ⟨hblank, hfirst, hmore⟩ := mathSymbols_spaced h t
      rw [spaced_cons, List.cons_append, List.append_assoc, symbolsCommand, expect_append]
      simp only [bind, Option.bind_some, nextMathSymbol, blanks?_space hblank, hfirst]
      rw [hmore]
      rfl

lemma commandFormula_toText (h : IsCommandFormula formula) (t : List Char) :
    atBlank (formula.toText.toList ++ ';' :: t) = false ∧
      commandFormula (formula.toText.toList ++ ';' :: t) = some (formula, ';' :: t) := by
  obtain ⟨symbols⟩ := formula
  obtain ⟨hne, h⟩ := h
  cases symbols with
  | nil => exact absurd rfl hne
  | cons first more =>
      obtain ⟨hblank, hfirst, hmore⟩ := mathSymbols_spaced h t
      rw [toList_formula, List.append_assoc, commandFormula]
      simp only [bind, Option.bind_some, hfirst]
      rw [hmore]
      exact ⟨hblank, rfl⟩

lemma nextWord_space (hlabel : IsToken endsWord label) (u : List Char) :
    nextWord (' ' :: (label.toList ++ ' ' :: u)) = some (label, ' ' :: u) := by
  obtain ⟨hblank, hread⟩ := word_append hlabel (.inl rfl) u
  rw [nextWord, blanks?_space hblank]
  exact hread

lemma labelledFormula_labelledText (word : String) (hlabel : IsArgument endsWord label)
    (hne : label ≠ "") (hf : IsCommandFormula formula) (t : List Char) :
    labelledFormula word (word.toList ++ (labelledText label formula ++ ';' :: t)) =
      some ((label, formula), ';' :: t) := by
  obtain ⟨hblank, hread⟩ := commandFormula_toText hf t
  rw [labelledText, List.cons_append, List.append_assoc, List.cons_append, labelledFormula,
    expect_append]
  simp only [bind, Option.bind_some, nextWord_space (hlabel.isToken hne), blanks?_space hblank,
    hread]
  rw [hlabel.trim]
  rfl

lemma words_intercalate {hyps : List String} (h : ∀ x ∈ hyps, IsToken endsWord x)
    (t : List Char) :
    atBlank ((" ".intercalate hyps).toList ++ ']' :: t) = false ∧
      words ((" ".intercalate hyps).toList ++ ']' :: t) = (hyps, ']' :: t) := by
  cases hyps with
  | nil => exact ⟨rfl, rfl⟩
  | cons first more =>
      obtain ⟨hfirst, hmore⟩ := List.forall_mem_cons.1 h
      have hmany := many_spaced advances_nextWord (fun _ => rfl)
        (fun x hx e u he => word_append (hmore x hx) he u) (rfl : atBlank (']' :: t) = false)
      obtain ⟨e, u, heu, he⟩ := exists_spaced_append more ']' t
      rw [toList_intercalate_space, List.append_assoc, heu]
      rw [heu] at hmany
      obtain ⟨hblank, hread⟩ := word_append hfirst he u
      refine ⟨hblank, ?_⟩
      rw [words, hread]
      exact congrArg (fun x : List String × List Char => (first :: x.1, x.2)) hmany

lemma skipBlanks_space (h : atBlank s = false) : skipBlanks (' ' :: s) = s :=
  skipBlanks_eq_self h

lemma provableCommand_toText {hyps : List String} (hlabel : IsArgument endsWord label)
    (hne : label ≠ "") (hhyps : ∀ x ∈ hyps, IsToken endsWord x) (hf : IsCommandFormula formula)
    (t : List Char) :
    provableCommand ((DatabaseCommand.provable label hyps formula).toText.toList ++ ';' :: t) =
      some (.provable label hyps formula, ';' :: t) := by
  obtain ⟨hformula, hread⟩ := commandFormula_toText hf t
  obtain ⟨hwords, hreads⟩ := words_intercalate hhyps (' ' :: (formula.toText.toList ++ ';' :: t))
  have hopen (u : List Char) : expect "[" (skipBlanks (' ' :: '[' :: u)) = some u :=
    expect_append "[" u
  have hclose (u : List Char) : expect "]" (skipBlanks (']' :: u)) = some u :=
    expect_append "]" u
  rw [toList_provable, List.append_assoc, provableCommand, expect_append]
  simp only [List.cons_append, List.append_assoc, bind, Option.bind_some,
    nextWord_space (hlabel.isToken hne), hopen, skipBlanks_eq_self hwords, hreads, hclose,
    skipBlanks_space hformula, hread]
  rw [hlabel.trim]
  rfl

lemma nextPath_space (hpath : IsArgument (startsWith ';') path) (hne : path ≠ "")
    (t : List Char) :
    nextPath (' ' :: (path.toList ++ ';' :: t)) = some (path, ';' :: t) := by
  have hread : Reading.path (path.toList ++ ';' :: t) = some (path, ';' :: t) :=
    token_of_isToken (looksAhead_startsWith ';') (hpath.isToken hne) rfl rfl
  rw [nextPath, blanks?_space (hpath.atBlank_eq_false hne _)]
  simp only [bind, Option.bind_some, hread]
  rw [hpath.trim]
  rfl

lemma IsToken.atBlank_eq_false_of_stepWord (hx : IsToken endsStepWord x) {d : Char}
    (hd : joins d = false) (u : List Char) : atBlank (x.toList ++ d :: u) = false := by
  refine hx.atBlank_eq_false looksAhead_endsStepWord (fun s hs => ?_) hd u
  rw [endsStepWord, hs]
  rfl

/-- A pair of tokens is read in front of a comma or a semicolon; of each the white space at its ends
is dropped. -/
lemma renumberPair_tokens {old new : String} (hold : IsToken endsStepWord old)
    (hnew : IsToken endsStepWord new) {e : Char} (he : e = ',' ∨ e = ';') (u : List Char) :
    renumberPair (pairText (old, new) ++ e :: u) =
      some ((Text.trim old, Text.trim new), e :: u) := by
  have hjoin : joins e = false := by rcases he with rfl | rfl <;> rfl
  have hfirst : stepWord (old.toList ++ '=' :: '>' :: (new.toList ++ e :: u)) =
      some (old, '=' :: '>' :: (new.toList ++ e :: u)) :=
    token_of_isToken looksAhead_endsStepWord hold rfl rfl
  have harrow : expect "=>" (skipBlanks ('=' :: '>' :: (new.toList ++ e :: u))) =
      some (new.toList ++ e :: u) := expect_append "=>" _
  have hsecond : stepWord (new.toList ++ e :: u) = some (new, e :: u) :=
    token_of_isToken looksAhead_endsStepWord hnew hjoin (by rcases he with rfl | rfl <;> rfl)
  rw [pairText, List.append_assoc, List.cons_append, List.cons_append, renumberPair]
  simp only [bind, Option.bind_some, hfirst, harrow,
    skipBlanks_eq_self (hnew.atBlank_eq_false_of_stepWord hjoin u), hsecond]
  rfl

/-- A pair of step numbers is read in front of a comma or a semicolon. -/
lemma renumberPair_pairText {pair : String × String} (hold : IsArgument endsStepWord pair.1)
    (hnew : IsArgument endsStepWord pair.2) (hne : pair.1 ≠ "" ∧ pair.2 ≠ "") {e : Char}
    (he : e = ',' ∨ e = ';') (u : List Char) :
    renumberPair (pairText pair ++ e :: u) = some (pair, e :: u) := by
  have hread := renumberPair_tokens (hold.isToken hne.1) (hnew.isToken hne.2) he u
  rwa [hold.trim, hnew.trim] at hread

/-- Without one of its two step numbers a pair is not read. -/
lemma renumberPair_eq_none {pair : String × String} (hold : IsArgument endsStepWord pair.1)
    (hne : ¬ (pair.1 ≠ "" ∧ pair.2 ≠ "")) {e : Char} (he : e = ',' ∨ e = ';') (u : List Char) :
    renumberPair (pairText pair ++ e :: u) = none := by
  obtain ⟨old, new⟩ := pair
  by_cases hempty : old = ""
  · subst hempty
    rfl
  · obtain rfl : new = "" := by
      by_contra hnew
      exact hne ⟨hempty, hnew⟩
    have hfirst : stepWord (old.toList ++ '=' :: '>' :: e :: u) =
        some (old, '=' :: '>' :: e :: u) :=
      token_of_isToken looksAhead_endsStepWord (hold.isToken hempty) rfl rfl
    have harrow : expect "=>" (skipBlanks ('=' :: '>' :: e :: u)) = some (e :: u) :=
      expect_append "=>" _
    have hsecond : stepWord (skipBlanks (e :: u)) = none := by
      rcases he with rfl | rfl <;> rfl
    rw [pairText, String.toList_empty, List.append_assoc, renumberPair]
    simp only [List.cons_append, List.nil_append, bind, Option.bind_some, hfirst, harrow, hsecond]
    rfl

section Pairs

variable {pairs : List (String × String)}
  (hpairs : ∀ pair ∈ pairs, IsArgument endsStepWord pair.1 ∧ IsArgument endsStepWord pair.2)

/-- Behind a pair stands a comma with the next one, or the semicolon. -/
lemma exists_pairs_append (pairs : List (String × String)) (t : List Char) :
    ∃ e u, pairs.flatMap (fun pair => ',' :: ' ' :: pairText pair) ++ ';' :: t = e :: u ∧
      (e = ',' ∨ e = ';') :=
  exists_flatMap_append ',' _ pairs ';' t

/-- No blank is where a pair begins, with a step number or with its arrow. -/
lemma atBlank_pairText {pair : String × String} (hold : IsArgument endsStepWord pair.1)
    (u : List Char) : atBlank (pairText pair ++ u) = false := by
  by_cases hempty : pair.1 = ""
  · rw [pairText, hempty]
    rfl
  · rw [pairText, List.append_assoc]
    exact hold.atBlank_eq_false hempty _

lemma nextRenumberPair_comma {pair : String × String} (hold : IsArgument endsStepWord pair.1)
    (u : List Char) :
    nextRenumberPair (',' :: ' ' :: (pairText pair ++ u)) = renumberPair (pairText pair ++ u) := by
  have hcomma : expect "," (skipBlanks (',' :: ' ' :: (pairText pair ++ u))) =
      some (' ' :: (pairText pair ++ u)) := expect_append "," _
  simp only [nextRenumberPair, hcomma, bind, Option.bind_some,
    skipBlanks_space (atBlank_pairText hold u)]

/-- Behind the keyword stands the first pair, and then the others. -/
lemma renumberCommand_pairText {first : String × String} (hold : IsArgument endsStepWord first.1)
    (u : List Char) :
    renumberCommand ("renumber".toList ++ ' ' :: (pairText first ++ u)) =
      (renumberPair (pairText first ++ u)).map fun pair =>
        (.renumber ⟨pair.1 :: (many nextRenumberPair advances_nextRenumberPair pair.2).1⟩,
          (many nextRenumberPair advances_nextRenumberPair pair.2).2) := by
  simp only [renumberCommand, expect_append, bind, Option.bind_some,
    blanks?_space (atBlank_pairText hold u)]
  cases renumberPair (pairText first ++ u) <;> rfl

include hpairs

lemma many_nextRenumberPair (hne : ∀ pair ∈ pairs, pair.1 ≠ "" ∧ pair.2 ≠ "") (t : List Char) :
    many nextRenumberPair advances_nextRenumberPair
      (pairs.flatMap (fun pair => ',' :: ' ' :: pairText pair) ++ ';' :: t) =
        (pairs, ';' :: t) := by
  refine many_flatMap (fun pre pair post h => ?_) rfl
  have hmem : pair ∈ pairs := h ▸ List.mem_append_right _ List.mem_cons_self
  obtain ⟨hold, hnew⟩ := hpairs pair hmem
  obtain ⟨e, u, heu, he⟩ := exists_pairs_append post t
  rw [heu, List.cons_append, List.cons_append, nextRenumberPair_comma hold]
  exact renumberPair_pairText hold hnew (hne pair hmem) he u

/-- Pairs that are read back have no empty step numbers. -/
lemma ne_of_many_nextRenumberPair {t : List Char}
    (h : (many nextRenumberPair advances_nextRenumberPair
      (pairs.flatMap (fun pair => ',' :: ' ' :: pairText pair) ++ ';' :: t)).1 = pairs) :
    ∀ pair ∈ pairs, pair.1 ≠ "" ∧ pair.2 ≠ "" := by
  induction pairs with
  | nil => exact List.forall_mem_nil _
  | cons pair pairs ih =>
      obtain ⟨⟨hold, hnew⟩, hmore⟩ := List.forall_mem_cons.1 hpairs
      obtain ⟨e, u, heu, he⟩ := exists_pairs_append pairs t
      have hnext := nextRenumberPair_comma hold (e :: u)
      rw [List.flatMap_cons, List.append_assoc, heu, List.cons_append, List.cons_append] at h
      by_cases hne : pair.1 ≠ "" ∧ pair.2 ≠ ""
      · rw [many_of_some (hnext.trans (renumberPair_pairText hold hnew hne he u)), ← heu] at h
        exact List.forall_mem_cons.2 ⟨hne, ih hmore (List.cons.inj h).2⟩
      · rw [many_of_none (hnext.trans (renumberPair_eq_none hold hne he u))] at h
        cases h

end Pairs

/-- **A legible command whose names are not empty is read back.** -/
lemma takes_toText (hc : command.Legible) (hne : ∀ name ∈ command.names, name ≠ "")
    (t : List Char) : Takes (command.toText.toList ++ ';' :: t) (';' :: t) command := by
  match command, hc with
  | .database (.symbols names), ⟨hnames, h⟩ =>
      rw [Command.toText, toList_symbols hnames, List.append_assoc]
      exact symbolsCommand_spaced hnames h t
  | .database (.logHyp label formula), ⟨hlabel, hf⟩ =>
      rw [Command.toText, toList_logHyp, List.append_assoc]
      exact labelledFormula_labelledText "hyp" hlabel (hne _ List.mem_cons_self) hf t
  | .database (.axiomatic label formula), ⟨hlabel, hf⟩ =>
      rw [Command.toText, toList_axiomatic, List.append_assoc]
      exact labelledFormula_labelledText "axiom" hlabel (hne _ List.mem_cons_self) hf t
  | .database (.provable label hyps formula), ⟨hlabel, hhyps, hf⟩ =>
      exact provableCommand_toText hlabel (hne _ List.mem_cons_self) hhyps hf t
  | .load path, hpath =>
      rw [toList_load, List.append_assoc, Takes, loadCommand, expect_append]
      exact nextPath_space hpath (hne _ List.mem_cons_self) t
  | .sheet (.display detail), _ => cases detail <;> rfl
  | .sheet (.renumber ⟨[]⟩), ⟨h, _⟩ => exact absurd rfl h
  | .sheet (.renumber ⟨first :: more⟩), ⟨_, hpairs⟩ =>
      have hne (pair : String × String) (h : pair ∈ first :: more) :
          pair.1 ≠ "" ∧ pair.2 ≠ "" :=
        ⟨hne _ (List.mem_flatMap.2 ⟨pair, h, by simp⟩),
          hne _ (List.mem_flatMap.2 ⟨pair, h, by simp⟩)⟩
      obtain ⟨⟨hold, hnew⟩, hmore⟩ := List.forall_mem_cons.1 hpairs
      obtain ⟨hfirst, hne⟩ := List.forall_mem_cons.1 hne
      have hmany := many_nextRenumberPair hmore hne t
      obtain ⟨e, u, heu, he⟩ := exists_pairs_append more t
      rw [heu] at hmany
      rw [Command.toText, toList_renumber, List.append_assoc, List.cons_append, List.append_assoc,
        heu, Takes, renumberCommand_pairText hold, renumberPair_pairText hold hnew hfirst he u,
        Option.map_some, hmany]
  | .sheet (.exportTo none), _ => rfl
  | .sheet (.exportTo (some path)), hpath =>
      have hread := nextPath_space (hpath path rfl) (hne path List.mem_cons_self) t
      rw [Command.toText, toList_exportTo, List.append_assoc, Takes, exportCommand, expect_append]
      simp only [bind, Option.bind_some, List.cons_append, optional, hread]
      rfl

/-! ### Commands with an empty name -/

lemma length_blanks?_lt (h : blanks? s = some rest) : rest.length < s.length := by
  rw [blanks?] at h
  split at h
  next hat =>
    cases h
    obtain ⟨blanks, hs, -, hstop⟩ := exists_append_skipBlanks s
    have hblanks : blanks ≠ [] := by
      rintro rfl
      rw [List.nil_append] at hs
      rw [← hs, hat] at hstop
      cases hstop
    have hlength := congrArg List.length hs
    have hpos := List.length_pos_iff.2 hblanks
    rw [List.length_append] at hlength
    omega
  · cases h

lemma length_of_mathSymbol (h : mathSymbol s = some (x, rest)) :
    x.toList.length + rest.length = s.length := by
  rw [mathSymbol] at h
  split at h
  · cases h
  · obtain ⟨-, rfl, -⟩ := token_eq_some_iff.1 h
    exact List.length_append.symm

/-- The symbols of a formula and the spaces between them take up their room. -/
lemma length_of_commandFormula (h : commandFormula s = some (formula, rest)) :
    formula.toText.toList.length + rest.length ≤ s.length := by
  obtain ⟨⟨first, t⟩, hfirst, ⟨⟩⟩ := Option.bind_eq_some_iff.1 h
  have hnext (s : List Char) (x : String) (rest : List Char)
      (h : nextMathSymbol s = some (x, rest)) :
      (' ' :: x.toList).length + rest.length ≤ s.length := by
    obtain ⟨u, hu, h⟩ := Option.bind_eq_some_iff.1 h
    have hblanks := length_blanks?_lt hu
    have hsymbol := length_of_mathSymbol h
    rw [List.length_cons]
    omega
  have hmore := length_flatMap_many advances_nextMathSymbol _ hnext t
  have hlength := length_of_mathSymbol hfirst
  rw [toList_formula, List.length_append, spaced]
  omega

/-- A label takes up room as well, even if white space was all there was to it. -/
lemma length_of_labelledFormula {word : String}
    (h : labelledFormula word s = some ((label, formula), rest)) :
    word.toList.length + formula.toText.toList.length + rest.length + 3 ≤ s.length := by
  simp only [labelledFormula, bind, Option.bind_eq_some_iff] at h
  obtain ⟨t, ht, x, hx, u, hu, y, hy, ⟨⟩⟩ := h
  obtain ⟨v, hv, hx⟩ := Option.bind_eq_some_iff.1 hx
  have := length_of_expect ht
  have := length_blanks?_lt hv
  have := advances_token endsWord v x.1 x.2 hx
  have := length_blanks?_lt hu
  have := length_of_commandFormula hy
  omega

/-- Without its label a formula loses its first symbol to it, and what is left is too short. -/
lemma label_ne_of_labelledFormula {word : String}
    (h : labelledFormula word (word.toList ++ (labelledText label formula ++ [';'])) =
      some ((label, formula), rest)) (hrest : rest ≠ []) : label ≠ "" := by
  rintro rfl
  have hlength := length_of_labelledFormula h
  have hpos := List.length_pos_iff.2 hrest
  simp only [labelledText, String.toList_empty, List.nil_append, List.length_append,
    List.length_cons, List.length_nil] at hlength
  omega

lemma pairs_ne_of_renumberCommand {first : String × String} {more : List (String × String)}
    (hpairs : ∀ pair ∈ first :: more,
      IsArgument endsStepWord pair.1 ∧ IsArgument endsStepWord pair.2)
    (h : renumberCommand ((SheetCommand.renumber ⟨first :: more⟩).toText.toList ++ [';']) =
      some (.renumber ⟨first :: more⟩, rest)) :
    ∀ pair ∈ first :: more, pair.1 ≠ "" ∧ pair.2 ≠ "" := by
  obtain ⟨⟨hold, hnew⟩, hmore⟩ := List.forall_mem_cons.1 hpairs
  obtain ⟨e, u, heu, he⟩ := exists_pairs_append more []
  rw [toList_renumber, List.append_assoc, List.cons_append, List.append_assoc, heu,
    renumberCommand_pairText hold] at h
  by_cases hfirst : first.1 ≠ "" ∧ first.2 ≠ ""
  · rw [renumberPair_pairText hold hnew hfirst he u, ← heu] at h
    simp only [Option.map_some, Option.some.injEq, Prod.mk.injEq, SheetCommand.renumber.injEq,
      Renumbering.mk.injEq, List.cons.injEq, true_and] at h
    exact List.forall_mem_cons.2 ⟨hfirst, ne_of_many_nextRenumberPair hmore h.1⟩
  · rw [renumberPair_eq_none hold hfirst he u] at h
    cases h

/-- **A command with an empty name is not read back.** -/
lemma name_ne_of_takes (hc : command.Legible)
    (h : Takes (command.toText.toList ++ [';']) rest command) (hrest : rest ≠ []) :
    ∀ name ∈ command.names, name ≠ "" := by
  match command, hc with
  | .database (.symbols names), _ => exact List.forall_mem_nil _
  | .database (.logHyp label formula), _ =>
      rw [Command.toText, toList_logHyp, List.append_assoc] at h
      exact List.forall_mem_singleton.2 (label_ne_of_labelledFormula h hrest)
  | .database (.axiomatic label formula), _ =>
      rw [Command.toText, toList_axiomatic, List.append_assoc] at h
      exact List.forall_mem_singleton.2 (label_ne_of_labelledFormula h hrest)
  | .database (.provable label hyps formula), ⟨_, hhyps, _⟩ =>
      refine List.forall_mem_cons.2 ⟨?_, fun name hname => (hhyps name hname).1⟩
      rintro rfl
      -- where the label should be there is the bracket
      rw [Command.toText, toList_provable, List.append_assoc, Takes, provableCommand,
        expect_append] at h
      cases h
  | .load path, _ =>
      refine List.forall_mem_singleton.2 ?_
      rintro rfl
      rw [toList_load, List.append_assoc, Takes, loadCommand, expect_append] at h
      cases h
  | .sheet (.display detail), _ => exact List.forall_mem_nil _
  | .sheet (.renumber ⟨[]⟩), ⟨h, _⟩ => exact absurd rfl h
  | .sheet (.renumber ⟨first :: more⟩), ⟨_, hpairs⟩ =>
      have hne := pairs_ne_of_renumberCommand hpairs h
      intro name hname
      obtain ⟨pair, hpair, hname⟩ := List.mem_flatMap.1 hname
      rcases List.mem_pair.1 hname with rfl | rfl
      · exact (hne pair hpair).1
      · exact (hne pair hpair).2
  | .sheet (.exportTo none), _ => exact List.forall_mem_nil _
  | .sheet (.exportTo (some path)), _ =>
      refine List.forall_mem_singleton.2 ?_
      rintro rfl
      rw [Command.toText, toList_exportTo, List.append_assoc, Takes, exportCommand,
        expect_append] at h
      cases h

lemma atBlank_toText (command : Command) (t : List Char) :
    atBlank (command.toText.toList ++ t) = false := by
  match command with
  | .database (.symbols _) | .database (.logHyp _ _) | .database (.axiomatic _ _)
  | .database (.provable _ _ _) =>
      simp only [Command.toText, DatabaseCommand.toText, String.toList_append, List.append_assoc]
      rfl
  | .load _ | .sheet (.display _) | .sheet (.renumber _) | .sheet (.exportTo (some _))
  | .sheet (.exportTo none) =>
      simp only [Command.toText, SheetCommand.toText, String.toList_append, List.append_assoc]
      rfl

end Reading

/-- **Commands survive their texts.** A command that a text holds is read back from how it is
written, with a semicolon behind it, exactly if every label, path, directory and step number that
it holds has something in it. -/
theorem Command.ofText?_toText_iff {text : String} {command : Command}
    (h : Command.ofText? text = some command) :
    Command.ofText? (command.toText ++ ";") = some command ↔
      ∀ name ∈ command.names, name ≠ "" := by
  obtain ⟨_, _, -, -, ⟨rest, hread, -⟩, -⟩ := ofText?_eq_some_iff.1 h
  have hlegible := legible_of_takes (anyCommand_eq_some_iff.1 hread)
  have hskip : skipBlanks (command.toText ++ ";").toList = command.toText.toList ++ [';'] := by
    rw [String.toList_append]
    exact skipBlanks_eq_self (atBlank_toText command _)
  rw [Command.ofText?, hskip]
  constructor
  · intro hback
    obtain ⟨⟨again, rest⟩, htakes, hback⟩ := Option.bind_eq_some_iff.1 hback
    obtain ⟨last, hlast, hback⟩ := Option.bind_eq_some_iff.1 hback
    obtain rfl : again = command := by
      split at hback
      · exact Option.some.inj hback
      · cases hback
    refine name_ne_of_takes hlegible (anyCommand_eq_some_iff.1 htakes) ?_
    rintro rfl
    cases hlast
  · intro hnames
    rw [anyCommand_eq_some_iff.2 (takes_toText hlegible hnames [])]
    rfl

/-- A step number that ends in the shaft of an arrow is kept; one that was nothing but a no-break
space is lost. -/
theorem Command.ofText?_toText_iff_renumber :
    let kept : Command := .sheet (.renumber ⟨[("a=", ">b"), ("c", "d")]⟩)
    let lost : Command := .sheet (.renumber ⟨[("a", "b"), ("c", "")]⟩)
    Command.ofText? "renumber a= =>\u00a0>b ,\r\nc=>d;" = some kept ∧
      Command.ofText? (kept.toText ++ ";") = some kept ∧
      Command.ofText? "renumber a=>b, c=>\u00a0;" = some lost ∧
      Command.ofText? (lost.toText ++ ";") ≠ some lost := by
  intro kept lost
  have hkept : Command.ofText? "renumber a= =>\u00a0>b ,\r\nc=>d;" = some kept := by
    decide +kernel
  have hlost : Command.ofText? "renumber a=>b, c=>\u00a0;" = some lost := by decide +kernel
  refine ⟨hkept, (Command.ofText?_toText_iff hkept).2 (by decide), hlost, fun hback => ?_⟩
  exact absurd ((Command.ofText?_toText_iff hlost).1 hback) (by decide)

end ProofSheet
