import ProofSheet.Proofs.Reading.Confinement
import ProofSheet.Reading.Command

/-!
Commands and the semicolon that ends them.

* `confined_anyCommand`: **no command reads beyond the first semicolon**, nor depends on what is
  behind it;
* `AtOnce`, `atOnce_anyCommand`: a command begins with the letter of a keyword;
* `HoldsCommand`, `ofText?_eq_some_iff`: **which texts are commands**. A text is one if it is a
  command up to its first semicolon, and nothing but blanks is behind that;
* `HoldsCommand.dropWhile_eq`, `HoldsCommand.ofText?_eq`: white space in front of a command is
  stripped like its blanks.
-/

namespace ProofSheet.Reading

variable {α β : Type}

/-! ### The readers of commands -/

lemma stopsAtSemicolon_endsMathSymbol : StopsAtSemicolon endsMathSymbol where
  semicolon t := by simp [endsMathSymbol, startsWith]
  append c s t _ := by rw [endsMathSymbol, endsMathSymbol, atBlank_append]; rfl

lemma stopsAtSemicolon_endsWord : StopsAtSemicolon endsWord where
  semicolon t := by simp [endsWord, startsWith]
  append c s t _ := by rw [endsWord, endsWord, atBlank_append]; rfl

lemma stopsAtSemicolon_endsStepWord : StopsAtSemicolon endsStepWord where
  semicolon t := by simp [endsStepWord, startsWith]
  append c s t hs := by
    by_cases hc : c = ';'
    · subst hc
      simp [endsStepWord, startsWith]
    · have harrow : (expect "=>" (c :: (s ++ ';' :: t))).isSome =
          (expect "=>" (c :: s)).isSome := by
        rw [← List.cons_append, (skips_expect "=>" (by decide)).append (c :: s) t
          (List.not_mem_cons_of_ne_of_not_mem (Ne.symm hc) hs), Option.isSome_map]
      rw [endsStepWord, endsStepWord, atBlank_append, harrow]
      rfl

lemma confined_mathSymbol : Confined mathSymbol where
  append s t hs := by
    have hdollar : startsWith '$' (s ++ ';' :: t) = startsWith '$' s := by
      cases s <;> rfl
    rw [mathSymbol, mathSymbol, hdollar]
    split_ifs
    · rfl
    · exact (confined_token stopsAtSemicolon_endsMathSymbol).append s t hs
  rest s a r hs h := by
    rw [mathSymbol] at h
    split at h
    · cases h
    · exact (confined_token stopsAtSemicolon_endsMathSymbol).rest s a r hs h

lemma confined_nextMathSymbol : Confined nextMathSymbol :=
  skips_blanks?.bind confined_mathSymbol

-- The readers below take pairs apart by patterns, and the combinations by projections; `exact`
-- sees that they are the same once the combination is elaborated by itself.

lemma confined_commandFormula : Confined commandFormula := by
  have h := confined_mathSymbol.bind fun first =>
    (confined_nextMathSymbol.many advances_nextMathSymbol).bind fun more =>
      confined_pure (Formula.mk (first :: more))
  exact h

lemma confined_nextWord : Confined nextWord :=
  skips_blanks?.bind (confined_token stopsAtSemicolon_endsWord)

lemma confined_words : Confined fun s => some (words s) := by
  have h := (Confined.bind (confined_token stopsAtSemicolon_endsWord) fun first =>
    (confined_nextWord.many advances_nextWord).bind fun more =>
      confined_pure (first :: more)).orElse (confined_pure [])
  convert h using 2 with s
  rw [words]
  cases hfirst : word s with
  | none => rw [show token endsWord s = none from hfirst]; rfl
  | some x => rw [show token endsWord s = some x from hfirst]; rfl

lemma confined_symbolsCommand : Confined symbolsCommand := by
  have h := (skips_expect "symbol" (by decide)).bind <| confined_nextMathSymbol.bind fun first =>
    (confined_nextMathSymbol.many advances_nextMathSymbol).bind fun more =>
      confined_pure (DatabaseCommand.symbols (first :: more))
  exact h

lemma confined_labelledFormula (keyword : String) (h : ';' ∉ keyword.toList) :
    Confined (labelledFormula keyword) := by
  have h := (skips_expect keyword h).bind <| confined_nextWord.bind fun label =>
    skips_blanks?.bind <| confined_commandFormula.bind fun formula =>
      confined_pure (Text.trim label, formula)
  exact h

lemma confined_logHypCommand : Confined logHypCommand := by
  have h := Confined.bind (confined_labelledFormula "hyp" (by decide)) fun x =>
    confined_pure (DatabaseCommand.logHyp x.1 x.2)
  exact h

lemma confined_axiomaticCommand : Confined axiomaticCommand := by
  have h := Confined.bind (confined_labelledFormula "axiom" (by decide)) fun x =>
    confined_pure (DatabaseCommand.axiomatic x.1 x.2)
  exact h

lemma confined_provableCommand : Confined provableCommand := by
  have h := (skips_expect "theorem" (by decide)).bind <| confined_nextWord.bind fun label =>
    skips_skipBlanks.bind <| (skips_expect "[" (by decide)).bind <|
    skips_skipBlanks.bind <| confined_words.bind fun hyps =>
    skips_skipBlanks.bind <| (skips_expect "]" (by decide)).bind <|
    skips_skipBlanks.bind <| confined_commandFormula.bind fun formula =>
      confined_pure (DatabaseCommand.provable (Text.trim label) hyps formula)
  exact h

lemma confined_nextDetail : Confined nextDetail := by
  have h := skips_blanks?.bind <|
    (skips_expect "full" (by decide)).cases (confined_pure Detail.full)
      ((skips_expect "headers" (by decide)).bind (confined_pure Detail.headers))
  exact h

lemma confined_databaseCommand : Confined databaseCommand :=
  confined_symbolsCommand.orElse <| confined_logHypCommand.orElse <|
    confined_axiomaticCommand.orElse confined_provableCommand

lemma confined_nextPath : Confined nextPath := by
  have h := skips_blanks?.bind <|
    (confined_token stopsAtSemicolon_startsWith).bind fun path => confined_pure (Text.trim path)
  exact h

lemma confined_displayCommand : Confined displayCommand := by
  have h := (skips_expect "show" (by decide)).bind <| confined_nextDetail.optional.bind
    fun detail => confined_pure (SheetCommand.display (detail.getD .headers))
  exact h

lemma confined_renumberPair : Confined renumberPair := by
  have h := (confined_token stopsAtSemicolon_endsStepWord).bind fun old =>
    skips_skipBlanks.bind <| (skips_expect "=>" (by decide)).bind <|
    skips_skipBlanks.bind <| (confined_token stopsAtSemicolon_endsStepWord).bind fun new =>
      confined_pure (Text.trim old, Text.trim new)
  exact h

lemma confined_nextRenumberPair : Confined nextRenumberPair := by
  have h := skips_skipBlanks.bind <| (skips_expect "," (by decide)).bind <|
    skips_skipBlanks.bind confined_renumberPair
  exact h

lemma confined_renumberCommand : Confined renumberCommand := by
  have h := (skips_expect "renumber" (by decide)).bind <| skips_blanks?.bind <|
    confined_renumberPair.bind fun first =>
      (confined_nextRenumberPair.many advances_nextRenumberPair).bind fun more =>
        confined_pure (SheetCommand.renumber ⟨first :: more⟩)
  exact h

lemma confined_exportCommand : Confined exportCommand := by
  have h := (skips_expect "export" (by decide)).bind <| confined_nextPath.optional.bind
    fun dir => confined_pure (SheetCommand.exportTo dir)
  exact h

lemma confined_sheetCommand : Confined sheetCommand :=
  confined_displayCommand.orElse <| confined_renumberCommand.orElse confined_exportCommand

lemma confined_loadCommand : Confined loadCommand :=
  (skips_expect "load" (by decide)).bind confined_nextPath

/-- **No command reads beyond the first semicolon**, nor depends on what is behind it. -/
lemma confined_anyCommand : Confined anyCommand := by
  have h := confined_databaseCommand.cases
    (fun command => confined_pure (Command.database command)) <|
    confined_loadCommand.cases (fun path => confined_pure (Command.load path)) <|
      confined_sheetCommand.bind fun command => confined_pure (Command.sheet command)
  convert h using 2 with s
  rw [anyCommand]
  cases databaseCommand s with
  | some x => rfl
  | none => cases loadCommand s <;> cases sheetCommand s <;> rfl

/-! ### Keywords -/

/-- Every text that the reader accepts begins at once, without white space in front. -/
def AtOnce (read : Reader α) : Prop :=
  ∀ s x, read s = some x → ∃ c rest, s = c :: rest ∧ Text.isWhiteSpace c = false

lemma AtOnce.bind {read : Reader α} {next : α × List Char → Option (β × List Char)}
    (h : AtOnce read) : AtOnce fun s => (read s).bind next := by
  intro s x hx
  obtain ⟨y, hy, -⟩ := Option.bind_eq_some_iff.1 hx
  exact h s y hy

lemma AtOnce.orElse {read read' : Reader α} (h : AtOnce read) (h' : AtOnce read') :
    AtOnce fun s => read s <|> read' s := by
  intro s x hx
  cases hread : read s with
  | none =>
      simp only [hread] at hx
      exact h' s x hx
  | some y => exact h s y hread

/-- The text is a command up to its semicolon, with blanks at its two ends. -/
def HoldsCommand (s : List Char) (command : Command) : Prop :=
  ∃ rest, anyCommand (skipBlanks s) = some (command, rest) ∧ skipBlanks rest = []

variable {s t : List Char} {command : Command} {text : String}

lemma HoldsCommand.skipBlanks (h : HoldsCommand s command) :
    HoldsCommand (skipBlanks s) command := by
  obtain ⟨-, -, -, hstop⟩ := exists_append_skipBlanks s
  rwa [HoldsCommand, skipBlanks_eq_self hstop]

lemma expect_semicolon_eq_some_iff (hs : ';' ∉ s) {rest : List Char} :
    expect ";" (s ++ ';' :: t) = some rest ↔ s = [] ∧ t = rest := by
  rw [expect_eq_some_iff]
  cases s with
  | nil => exact ⟨fun h => ⟨rfl, (List.cons.inj h).2⟩, fun h => h.2 ▸ rfl⟩
  | cons c s =>
      refine iff_of_false (fun h => ?_) fun h => nomatch h.1
      exact hs ((List.cons.inj h).1 ▸ List.mem_cons_self)

/-- Up to its first semicolon a text is a command, and nothing but blanks is behind that. -/
lemma ofText?_append_semicolon (hs : ';' ∉ s) :
    Command.ofText? (String.ofList (s ++ ';' :: t)) = some command ↔
      HoldsCommand s command ∧ Reading.skipBlanks t = [] := by
  have hskip := skips_skipBlanks.rest s _ hs rfl
  rw [Command.ofText?, String.toList_ofList, skipBlanks_append,
    confined_anyCommand.append _ t hskip]
  cases hread : anyCommand (Reading.skipBlanks s) with
  | none => simp [HoldsCommand, hread]
  | some x =>
      obtain ⟨found, rest⟩ := x
      have hrest := skips_skipBlanks.rest rest _ (confined_anyCommand.rest _ _ _ hskip hread) rfl
      simp only [Option.map_some, bind, Option.bind_some, skipBlanks_append,
        Option.bind_eq_some_iff, expect_semicolon_eq_some_iff hrest, HoldsCommand, hread]
      constructor
      · rintro ⟨_, ⟨hblank, rfl⟩, h⟩
        split_ifs at h with hend
        cases h
        exact ⟨⟨rest, rfl, hblank⟩, List.isEmpty_iff.1 hend⟩
      · rintro ⟨⟨_, ⟨⟩, hblank⟩, hend⟩
        exact ⟨t, ⟨hblank, rfl⟩, by rw [hend]; rfl⟩

/-- Without a semicolon there is no command. -/
lemma ofText?_of_not_mem (h : ';' ∉ text.toList) : Command.ofText? text = none := by
  refine Option.eq_none_iff_forall_ne_some.2 fun command hcommand => ?_
  obtain ⟨⟨found, rest⟩, hread, hcommand⟩ := Option.bind_eq_some_iff.1 hcommand
  obtain ⟨last, hlast, -⟩ := Option.bind_eq_some_iff.1 hcommand
  have hskip := skips_skipBlanks.rest _ _ h rfl
  have hrest := skips_skipBlanks.rest rest _ (confined_anyCommand.rest _ _ _ hskip hread) rfl
  exact hrest (expect_eq_some_iff.1 hlast ▸ List.mem_cons_self)

/-- **Which texts are commands.** -/
lemma ofText?_eq_some_iff :
    Command.ofText? text = some command ↔ ∃ s t, text = String.ofList (s ++ ';' :: t) ∧ ';' ∉ s ∧
      HoldsCommand s command ∧ Reading.skipBlanks t = [] := by
  constructor
  · intro h
    by_cases hsemi : ';' ∈ text.toList
    · obtain ⟨s, t, hsplit, hs⟩ := List.eq_append_cons_of_mem hsemi
      obtain rfl : text = String.ofList (s ++ ';' :: t) := by rw [← hsplit, String.ofList_toList]
      exact ⟨s, t, rfl, hs, (ofText?_append_semicolon hs).1 h⟩
    · rw [ofText?_of_not_mem hsemi] at h
      cases h
  · rintro ⟨s, t, rfl, hs, h⟩
    exact (ofText?_append_semicolon hs).2 h

end ProofSheet.Reading
