import ProofSheet.Proofs.Reading.Blank
import ProofSheet.Proofs.Text.WhiteSpace

/-!
Readers that keep in front of a semicolon: they read none, and what is behind the first one makes
no difference to them.

* `StopsAtSemicolon`, `Skips`, `Confined`: the property, for what stops a token, for functions that
  skip and for readers;
* `confined_token`, `skips_expect`, `skips_skipBlanks`, `skips_blanks?`: the parts that readers are
  made of;
* `Confined.cases`, `Confined.bind`, `Skips.bind`, `Confined.orElse`, `Confined.optional`,
  `Confined.many`: every way of putting readers together keeps it.
-/

namespace ProofSheet.Reading

variable {α β : Type}

/-! ### Stops -/

/-- The stop is in front of every semicolon, and what is behind one makes no difference to it. -/
structure StopsAtSemicolon (stop : List Char → Bool) : Prop where
  semicolon : ∀ t, stop (';' :: t) = true
  append : ∀ c s t, ';' ∉ s → stop (c :: (s ++ ';' :: t)) = stop (c :: s)

lemma head?_append_semicolon {c : Char} (hc : c ≠ ';') (s t : List Char) :
    (s ++ ';' :: t).head? = some c ↔ s.head? = some c := by
  cases s with
  | nil => simp [hc.symm]
  | cons d s => rfl

lemma atBlank_append (c : Char) (s t : List Char) :
    atBlank (c :: (s ++ ';' :: t)) = atBlank (c :: s) := by
  rw [Bool.eq_iff_iff, ← Bool.not_eq_false, ← Bool.not_eq_false, atBlank_cons_eq_false_iff,
    atBlank_cons_eq_false_iff, head?_append_semicolon (by decide)]

lemma stopsAtSemicolon_startsWith : StopsAtSemicolon (startsWith ';') :=
  ⟨fun _ => rfl, fun _ _ _ _ => rfl⟩

/-! ### Skipping -/

/-- The function skips no semicolon, and what is behind a semicolon does not matter to it. -/
structure Skips (skip : List Char → Option (List Char)) : Prop where
  append : ∀ s t, ';' ∉ s → skip (s ++ ';' :: t) = (skip s).map (· ++ ';' :: t)
  rest : ∀ s r, ';' ∉ s → skip s = some r → ';' ∉ r

lemma skips_expect (word : String) (hword : ';' ∉ word.toList) : Skips (expect word) where
  append s t hs := by
    refine Option.ext fun r => ?_
    simp only [Option.map_eq_some_iff, expect_eq_some_iff]
    constructor
    · intro h
      rcases List.append_eq_append_iff.1 h with ⟨a, hword', hr⟩ | ⟨b, rfl, rfl⟩
      · -- the word ends at the semicolon, since it has none itself
        cases a with
        | nil => exact ⟨[], by simpa using hword'.symm, hr⟩
        | cons c a =>
            obtain ⟨rfl, -⟩ := List.cons.inj hr
            exact absurd (hword' ▸ List.mem_append_right _ List.mem_cons_self) hword
      · exact ⟨b, rfl, rfl⟩
    · rintro ⟨r, rfl, rfl⟩
      exact List.append_assoc _ _ _
  rest s r hs h := fun hr => hs (expect_eq_some_iff.1 h ▸ List.mem_append_right _ hr)

lemma skipBlanks_eq_self {s : List Char} (h : atBlank s = false) : skipBlanks s = s := by
  rw [skipBlanks.eq_def]
  split <;> simp_all [atBlank, atSpace, atBreak, afterBreak?]

lemma atBlank_cons_of_ne {c : Char} {s : List Char} (hspace : ¬ isSpace c = true)
    (hbreak : c ≠ '\n') (hbreak' : ∀ rest, c = '\r' → s ≠ '\n' :: rest) :
    atBlank (c :: s) = false := by
  refine atBlank_cons_eq_false_iff.2 ⟨⟨by simpa using hspace, hbreak⟩, ?_⟩
  rintro ⟨hc, hhead⟩
  cases s with
  | nil => cases hhead
  | cons d s =>
      obtain rfl := Option.some.inj hhead
      exact hbreak' s hc rfl

/-- Blanks are white space, and no blank is left behind them. -/
lemma exists_append_skipBlanks (s : List Char) :
    ∃ blanks, s = blanks ++ skipBlanks s ∧ Text.White blanks ∧ atBlank (skipBlanks s) = false := by
  fun_induction skipBlanks s with
  | case1 => exact ⟨[], rfl, Text.white_nil, rfl⟩
  | case2 rest ih =>
      obtain ⟨blanks, hrest, hblanks, hstop⟩ := ih
      exact ⟨'\n' :: blanks, congrArg _ hrest, hblanks.cons (by decide), hstop⟩
  | case3 rest ih =>
      obtain ⟨blanks, hrest, hblanks, hstop⟩ := ih
      exact ⟨'\r' :: '\n' :: blanks, congrArg (fun r => '\r' :: '\n' :: r) hrest,
        (hblanks.cons (by decide)).cons (by decide), hstop⟩
  | case4 c rest hbreak hbreak' hspace ih =>
      obtain ⟨blanks, hrest, hblanks, hstop⟩ := ih
      refine ⟨c :: blanks, congrArg _ hrest, hblanks.cons ?_, hstop⟩
      rcases eq_space_or_tab hspace with rfl | rfl <;> decide
  | case5 c rest hbreak hbreak' hspace =>
      exact ⟨[], rfl, Text.white_nil, atBlank_cons_of_ne hspace hbreak hbreak'⟩

lemma skipBlanks_append (s t : List Char) :
    skipBlanks (s ++ ';' :: t) = skipBlanks s ++ ';' :: t := by
  fun_induction skipBlanks s with
  | case1 => exact skipBlanks_eq_self rfl
  | case2 rest ih => simpa [skipBlanks] using ih
  | case3 rest ih => simpa [skipBlanks] using ih
  | case4 c rest hbreak hbreak' hspace ih =>
      rcases eq_space_or_tab hspace with rfl | rfl <;> simpa [skipBlanks, isSpace] using ih
  | case5 c rest hbreak hbreak' hspace =>
      refine skipBlanks_eq_self ?_
      rw [List.cons_append, atBlank_append]
      exact atBlank_cons_of_ne hspace hbreak hbreak'

lemma skips_skipBlanks : Skips fun s => some (skipBlanks s) where
  append s t _ := congrArg some (skipBlanks_append s t)
  rest s r hs h := by
    obtain ⟨blanks, hblanks, -⟩ := exists_append_skipBlanks s
    obtain rfl := Option.some.inj h
    exact fun hr => hs (hblanks ▸ List.mem_append_right _ hr)

lemma skips_blanks? : Skips blanks? where
  append s t hs := by
    have hblank : atBlank (s ++ ';' :: t) = atBlank s := by
      cases s with
      | nil => rfl
      | cons c s => exact atBlank_append c s t
    rw [blanks?, blanks?, hblank, skipBlanks_append]
    split_ifs <;> rfl
  rest s r hs h := by
    rw [blanks?] at h
    split at h
    · exact skips_skipBlanks.rest s r hs h
    · cases h

/-! ### Readers -/

/-- The reader reads no semicolon, and what is behind a semicolon does not matter to it. -/
structure Confined (read : Reader α) : Prop where
  append : ∀ s t, ';' ∉ s → read (s ++ ';' :: t) = (read s).map fun x => (x.1, x.2 ++ ';' :: t)
  rest : ∀ s a r, ';' ∉ s → read s = some (a, r) → ';' ∉ r

lemma confined_pure (a : α) : Confined fun s => some (a, s) where
  append _ _ _ := rfl
  rest s b r hs h := by
    cases h
    exact hs

/-- One reader, and then another one that depends on whether the first one succeeds. -/
lemma Confined.cases {read : Reader α} {next : α → Reader β} {read' : Reader β} (h : Confined read)
    (hnext : ∀ a, Confined (next a)) (h' : Confined read') :
    Confined fun s =>
      match read s with
      | some x => next x.1 x.2
      | none => read' s where
  append s t hs := by
    rw [h.append s t hs]
    cases hread : read s with
    | none => exact h'.append s t hs
    | some x => exact (hnext x.1).append x.2 t (h.rest s x.1 x.2 hs hread)
  rest s b r hs hr := by
    cases hread : read s with
    | none =>
        rw [hread] at hr
        exact h'.rest s b r hs hr
    | some x =>
        rw [hread] at hr
        exact (hnext x.1).rest x.2 b r (h.rest s x.1 x.2 hs hread) hr

/-- The same with something that is skipped in front. -/
lemma Skips.cases {skip : List Char → Option (List Char)} {read read' : Reader α} (h : Skips skip)
    (hread : Confined read) (h' : Confined read') :
    Confined fun s =>
      match skip s with
      | some r => read r
      | none => read' s := by
  have hskip : Confined fun s => (skip s).map fun r => ((), r) := by
    refine ⟨fun s t hs => ?_, fun s a r hs hr => ?_⟩
    · rw [h.append s t hs, Option.map_map, Option.map_map]
      rfl
    · obtain ⟨r, hr, ⟨⟩⟩ := Option.map_eq_some_iff.1 hr
      exact h.rest s r hs hr
  convert hskip.cases (fun _ => hread) h' using 2 with s
  cases skip s <;> rfl

lemma confined_none : Confined fun _ => (none : Option (α × List Char)) :=
  ⟨fun _ _ _ => rfl, fun _ _ _ _ h => nomatch h⟩

lemma Confined.bind {read : Reader α} {next : α → Reader β} (h : Confined read)
    (hnext : ∀ a, Confined (next a)) : Confined fun s => (read s).bind fun x => next x.1 x.2 := by
  convert h.cases hnext confined_none using 2 with s
  cases read s <;> rfl

lemma Skips.bind {skip : List Char → Option (List Char)} {read : Reader α} (h : Skips skip)
    (hread : Confined read) : Confined fun s => (skip s).bind read := by
  convert h.cases hread confined_none using 2 with s
  cases skip s <;> rfl

lemma Confined.orElse {read read' : Reader α} (h : Confined read) (h' : Confined read') :
    Confined fun s => read s <|> read' s := by
  convert h.cases confined_pure h' using 2 with s
  cases read s <;> rfl

lemma Confined.optional {read : Reader α} (h : Confined read) :
    Confined fun s => some (optional read s) where
  append s t hs := by
    rw [Reading.optional, Reading.optional, h.append s t hs]
    cases read s <;> rfl
  rest s a r hs hr := by
    rw [Reading.optional] at hr
    cases hread : read s with
    | none =>
        rw [hread] at hr
        cases hr
        exact hs
    | some x =>
        rw [hread] at hr
        cases hr
        exact h.rest s x.1 x.2 hs hread

lemma Confined.many_append {read : Reader α} (h : Confined read) (advances : Advances read)
    (s : List Char) (hs : ';' ∉ s) :
    ';' ∉ (many read advances s).2 ∧ ∀ t, many read advances (s ++ ';' :: t) =
      ((many read advances s).1, (many read advances s).2 ++ ';' :: t) := by
  fun_induction many read advances s with
  | case1 s taken =>
      refine ⟨hs, fun t => many_of_none ?_⟩
      rw [h.append s t hs, taken]
      rfl
  | case2 s a rest taken more final heq ih =>
      obtain ⟨hfinal, happend⟩ := ih (h.rest s a rest hs taken)
      rw [heq] at hfinal happend
      refine ⟨hfinal, fun t => ?_⟩
      have hstep : read (s ++ ';' :: t) = some (a, rest ++ ';' :: t) := by
        rw [h.append s t hs, taken]
        rfl
      rw [many_of_some hstep, happend t]

lemma Confined.many {read : Reader α} (h : Confined read) (advances : Advances read) :
    Confined fun s => some (many read advances s) where
  append s t hs := congrArg some ((h.many_append advances s hs).2 t)
  rest s a r hs hr := by
    have hfinal := (h.many_append advances s hs).1
    rwa [Option.some.inj hr] at hfinal

lemma dropUntil_append {stop : List Char → Bool} (h : StopsAtSemicolon stop) (s t : List Char)
    (hs : ';' ∉ s) :
    takeUntil stop (s ++ ';' :: t) = takeUntil stop s ∧
      dropUntil stop (s ++ ';' :: t) = dropUntil stop s ++ ';' :: t := by
  induction s with
  | nil => simp [takeUntil, dropUntil, h.semicolon]
  | cons c s ih =>
      obtain ⟨htake, hdrop⟩ := ih (List.not_mem_of_not_mem_cons hs)
      have hstop := h.append c s t (List.not_mem_of_not_mem_cons hs)
      rw [List.cons_append, takeUntil, dropUntil, takeUntil, dropUntil, hstop, htake, hdrop]
      constructor <;> split_ifs <;> rfl

lemma confined_token {stop : List Char → Bool} (h : StopsAtSemicolon stop) :
    Confined (token stop) where
  append s t hs := by
    obtain ⟨htake, hdrop⟩ := dropUntil_append h s t hs
    rw [token, token, htake, hdrop]
    cases takeUntil stop s <;> rfl
  rest s a r hs hr := by
    obtain ⟨-, rfl, -⟩ := token_eq_some_iff.1 hr
    exact fun hmem => hs (List.mem_append_right _ hmem)

end ProofSheet.Reading
