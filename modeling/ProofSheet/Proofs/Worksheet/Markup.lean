import Mathlib.Data.List.Infix
import ProofSheet.Proofs.Reading.Argument
import ProofSheet.Proofs.Refusal
import ProofSheet.Proofs.Text.Entity
import ProofSheet.Worksheet.Page

/-!
The page of a worksheet, read back.

* `cut?`: a text, cut at the first place of a word;
* `Lacks`: a word begins nowhere in some characters, whatever stands behind them; markup does not in
  escaped text (`lacks_of_markupFree`);
* `toList_fillIn_preamble`, `markupFree_pageLines`, `unescape_pageLines`: the title in the frame,
  and the lines of the steps;
* `Worksheet.exists_cut_page`: **a page in the default frame decodes to the texts of the steps**,
  and its title to the label of the theorem.
-/

namespace ProofSheet

open Text

variable {w front rest : List Char} {word pattern : String}

namespace Reading

/-! ### The first place of a word -/

/-- The word begins here. -/
def atWord (word : String) (s : List Char) : Bool :=
  (expect word s).isSome

/-- What stands in front of the first place of a word, and what stands behind the word there. -/
def cut? (word : String) (s : List Char) : Option (List Char × List Char) :=
  (expect word (dropUntil (atWord word) s)).map fun rest => (takeUntil (atWord word) s, rest)

/-- A word is found where it stands if it does not begin in front of that place. -/
lemma cut?_append (h : Passes (atWord word) front (word.toList ++ rest)) :
    cut? word (front ++ (word.toList ++ rest)) = some (front, rest) := by
  have hat : atWord word (word.toList ++ rest) = true := by
    rw [atWord, expect_append]
    rfl
  obtain ⟨htake, hdrop⟩ := takeUntil_eq_iff.2 ⟨rfl, h, .inr hat⟩
  rw [cut?, htake, hdrop, expect_append, Option.map_some]

/-- The word neither stands in the characters nor begins at the end of them. -/
def Lacks (word : String) (w : List Char) : Prop :=
  ∀ s ∈ w.tails, s ≠ [] → ¬ word.toList <+: s ∧ ¬ s <+: word.toList

instance (word : String) (w : List Char) : Decidable (Lacks word w) :=
  List.decidableBAll _ w.tails

lemma Lacks.passes (h : Lacks word w) (rest : List Char) : Passes (atWord word) w rest := by
  induction w with
  | nil => trivial
  | cons c w ih =>
      rw [Lacks, List.tails_cons, List.forall_mem_cons] at h
      refine ⟨Bool.eq_false_iff.2 fun hat => ?_, ih h.2⟩
      obtain ⟨t, ht⟩ := Option.isSome_iff_exists.1 hat
      rw [expect_eq_some_iff] at ht
      obtain ⟨hstands, hbegins⟩ := h.1 (List.cons_ne_nil c w)
      rcases List.prefix_or_prefix_of_prefix ⟨t, ht.symm⟩ (List.prefix_append (c :: w) rest) with
        hpre | hpre
      · exact hstands hpre
      · exact hbegins hpre

/-- Text without markup lacks every tag. -/
lemma lacks_of_markupFree (hword : startsWith '<' word.toList = true) (h : MarkupFree w) :
    Lacks word w := by
  intro s hs hne
  obtain ⟨c, more, rfl⟩ := List.exists_cons_of_ne_nil hne
  have hc : c ≠ '<' := (h c (((List.mem_tails _ _).1 hs).subset List.mem_cons_self)).1
  rw [startsWith, beq_iff_eq, List.head?_eq_some_iff] at hword
  obtain ⟨tag, htag⟩ := hword
  rw [htag]
  refine ⟨fun hpre => hc ?_, fun hpre => hc ?_⟩
  · exact (List.cons_prefix_cons.1 hpre).1.symm
  · exact (List.cons_prefix_cons.1 hpre).1

end Reading

/-! ### The parts of a page -/

/-- Where the pattern does not begin, nothing is replaced. -/
lemma spliceFrom_append (h : Reading.Lacks pattern w) (replacement rest : List Char) :
    spliceFrom pattern.toList replacement 0 (w ++ rest) =
      w ++ spliceFrom pattern.toList replacement 0 rest := by
  have hpasses := h.passes rest
  clear h
  induction w with
  | nil => rfl
  | cons c w ih =>
      have hnot : pattern.toList.isPrefixOf (c :: (w ++ rest)) = false := by
        refine Bool.eq_false_iff.2 fun hpre => ?_
        obtain ⟨t, ht⟩ := List.isPrefixOf_iff_prefix.1 hpre
        have hat : Reading.atWord pattern (c :: (w ++ rest)) = true :=
          Option.isSome_iff_exists.2 ⟨t, Reading.expect_eq_some_iff.2 ht.symm⟩
        exact Bool.false_ne_true (hpasses.1.symm.trans hat)
      rw [List.cons_append, spliceFrom, hnot, ih hpasses.2]
      rfl

lemma spliceFrom_skip (pattern replacement v rest : List Char) :
    spliceFrom pattern replacement v.length (v ++ rest) =
      spliceFrom pattern replacement 0 rest := by
  induction v with
  | nil => rfl
  | cons c v ih => exact ih

/-- The pattern is replaced where it stands. -/
lemma spliceFrom_pattern_append (hpattern : pattern ≠ "") (replacement rest : List Char) :
    spliceFrom pattern.toList replacement 0 (pattern.toList ++ rest) =
      replacement ++ spliceFrom pattern.toList replacement 0 rest := by
  obtain ⟨c, more, hc⟩ := List.exists_cons_of_ne_nil (mt String.toList_eq_nil_iff.1 hpattern)
  have hat : (c :: more).isPrefixOf (c :: (more ++ rest)) = true :=
    List.isPrefixOf_iff_prefix.2 (List.prefix_append (c :: more) rest)
  rw [hc, List.cons_append, spliceFrom, hat, if_pos rfl]
  exact congrArg (replacement ++ ·) (spliceFrom_skip _ _ more rest)

/-- The default frame in front of the title. -/
def titleOpening : String := "<html>\n<head>\n<title>"

/-- The default frame between the title and the tag in front of the steps. -/
def titleClosing : String := "</title>\n</head>\n<body>\n"

/-- The default frame behind the tag that stands behind the steps. -/
def bodyClosing : String := "\n</body>\n</html>\n"

/-- The label of the theorem becomes the title, and the rest of the frame stays as it is. -/
lemma toList_fillIn_preamble (label : String) :
    (fillIn label ({} : ExportConfig).preamble).toList =
      titleOpening.toList ++ ((escape label).toList ++
        (titleClosing.toList ++ "<pre>\n".toList)) := by
  have hparts : ({} : ExportConfig).preamble.toList =
      titleOpening.toList ++ (theoremPlaceholder.toList ++
        ((titleClosing ++ "<pre>\n").toList ++ [])) := by decide
  have hopening : Reading.Lacks theoremPlaceholder titleOpening.toList := by decide
  have hclosing : Reading.Lacks theoremPlaceholder (titleClosing ++ "<pre>\n").toList := by decide
  rw [fillIn, replaceAll, String.toList_ofList, hparts, spliceFrom_append hopening,
    spliceFrom_pattern_append (by decide), spliceFrom_append hclosing, spliceFrom,
    String.toList_append, List.append_nil]

lemma toList_fillIn_postamble (label : String) :
    (fillIn label ({} : ExportConfig).postamble).toList =
      "</pre>".toList ++ bodyClosing.toList := by
  have hlacks : Reading.Lacks theoremPlaceholder ({} : ExportConfig).postamble.toList := by decide
  have hsplice := spliceFrom_append hlacks (escape label).toList []
  rw [List.append_nil, spliceFrom, List.append_nil] at hsplice
  rw [fillIn, replaceAll, String.toList_ofList, hsplice]
  decide

lemma markupFree_pageLines (steps : List ProofStep) :
    MarkupFree (String.join (steps.map (·.pageLine))).toList := by
  induction steps with
  | nil => decide
  | cons step steps ih =>
      rw [List.map_cons, String.join_cons, String.toList_append, markupFree_append,
        ProofStep.pageLine, String.toList_append, markupFree_append]
      exact ⟨⟨markupFree_escape step.text, by decide⟩, ih⟩

/-- The lines of the steps decode to the texts of the steps. -/
lemma unescape_pageLines (steps : List ProofStep) :
    unescape (String.join (steps.map (·.pageLine))).toList =
      (String.join ((steps.map (·.text)).map (· ++ "\n"))).toList := by
  induction steps with
  | nil => rfl
  | cons step steps ih =>
      have hline (rest : List Char) :
          unescape ("\n".toList ++ rest) = "\n".toList ++ unescape rest :=
        unescape_cons (by decide) rest
      rw [List.map_cons, String.join_cons, String.toList_append, ProofStep.pageLine,
        String.toList_append, List.append_assoc, unescape_escape_append, hline, ih]
      simp only [List.map_cons, String.join_cons, String.toList_append, List.append_assoc]

/-! ### The page -/

namespace Worksheet

variable {config : ExportConfig} {sheet : Worksheet} {page : String}

lemma toList_page (hpre : config.preamble = ({} : ExportConfig).preamble)
    (hpost : config.postamble = ({} : ExportConfig).postamble) (h : sheet.page config = .ok page) :
    page.toList = titleOpening.toList ++ ((escape sheet.theoremLabel).toList ++
      (titleClosing.toList ++ ("<pre>\n".toList ++
        ((String.join (sheet.document.steps.map (·.pageLine))).toList ++
          ("</pre>".toList ++ bodyClosing.toList))))) := by
  rw [Worksheet.page] at h
  split_ifs at h
  split at h
  · cases h
  · rw [hpre, hpost, Except.ok.injEq] at h
    rw [← h, String.toList_append, String.toList_append, toList_fillIn_preamble,
      toList_fillIn_postamble]
    simp only [List.append_assoc]

/-- A tag that is not in the frame around the title does not begin in front of the steps. -/
lemma passes_title {word : String} (hword : Reading.startsWith '<' word.toList = true)
    (hopening : Reading.Lacks word titleOpening.toList)
    (hclosing : Reading.Lacks word titleClosing.toList) (label : String) (rest : List Char) :
    Reading.Passes (Reading.atWord word)
      (titleOpening.toList ++ ((escape label).toList ++ titleClosing.toList)) rest := by
  have htitle := Reading.lacks_of_markupFree hword (markupFree_escape label)
  rw [Reading.passes_append, Reading.passes_append]
  exact ⟨hopening.passes _, htitle.passes _, hclosing.passes rest⟩

/-- **The page of a worksheet decodes to its proof.** In the default frame the part between the
first `<pre>` with the end of its line and the first `</pre>` holds no markup, and with its entities
decoded from left to right it is the text of every step with the end of its line, in order. The
title holds no markup either and decodes to the label of the theorem, and everything else is the
frame. This holds of every worksheet that has a page, whatever characters are in its labels, numbers
and symbols. -/
theorem exists_cut_page (hpre : config.preamble = ({} : ExportConfig).preamble)
    (hpost : config.postamble = ({} : ExportConfig).postamble) (h : sheet.page config = .ok page) :
    ∃ front body title,
      Reading.cut? "<pre>\n" page.toList =
        some (front, body ++ ("</pre>".toList ++ bodyClosing.toList)) ∧
      Reading.cut? "</pre>" page.toList =
        some (front ++ ("<pre>\n".toList ++ body), bodyClosing.toList) ∧
      MarkupFree body ∧
      unescape body = (String.join (sheet.document.texts.map (· ++ "\n"))).toList ∧
      front = titleOpening.toList ++ (title ++ titleClosing.toList) ∧
      MarkupFree title ∧ unescape title = sheet.theoremLabel.toList := by
  have hpage := toList_page hpre hpost h
  have hfree := markupFree_pageLines sheet.document.steps
  have htexts := unescape_pageLines sheet.document.steps
  set body := (String.join (sheet.document.steps.map (·.pageLine))).toList
  refine ⟨_, body, (escape sheet.theoremLabel).toList, ?_, ?_, hfree, htexts, rfl,
    markupFree_escape _, unescape_escape _⟩
  · have hopening : Reading.Lacks "<pre>\n" titleOpening.toList := by decide
    have hclosing : Reading.Lacks "<pre>\n" titleClosing.toList := by decide
    have hcut := Reading.cut?_append (passes_title (by decide) hopening hclosing sheet.theoremLabel
      ("<pre>\n".toList ++ (body ++ ("</pre>".toList ++ bodyClosing.toList))))
    rw [hpage, ← hcut]
    simp only [List.append_assoc]
  · have hopening : Reading.Lacks "</pre>" titleOpening.toList := by decide
    have hclosing : Reading.Lacks "</pre>" titleClosing.toList := by decide
    have hpre : Reading.Lacks "</pre>" "<pre>\n".toList := by decide
    have hbody : Reading.Lacks "</pre>" body := Reading.lacks_of_markupFree (by decide) hfree
    have hsteps : Reading.Passes (Reading.atWord "</pre>") ("<pre>\n".toList ++ body)
        ("</pre>".toList ++ bodyClosing.toList) := by
      rw [Reading.passes_append]
      exact ⟨hpre.passes _, hbody.passes _⟩
    have hpasses : Reading.Passes (Reading.atWord "</pre>")
        (titleOpening.toList ++ ((escape sheet.theoremLabel).toList ++ titleClosing.toList) ++
          ("<pre>\n".toList ++ body)) ("</pre>".toList ++ bodyClosing.toList) := by
      rw [Reading.passes_append]
      exact ⟨passes_title (by decide) hopening hclosing sheet.theoremLabel _, hsteps⟩
    rw [hpage, ← Reading.cut?_append hpasses]
    simp only [List.append_assoc]

/-- A label and symbols that hold tags, entities and the placeholder of the title. -/
theorem exists_cut_page_note :
    let text := "$( <MM> <PROOF_ASST> THEOREM=</pre>\x7btheorem\x7d\n1<:: &lt; \"\n$)"
    ∃ sheet page, load {} text = .ok sheet ∧ sheet.page {} = .ok page ∧ ∃ front body title,
      Reading.cut? "<pre>\n" page.toList =
        some (front, body ++ ("</pre>".toList ++ bodyClosing.toList)) ∧
      unescape body = "1<:: &lt; \"\n".toList ∧ MarkupFree title ∧
      unescape title = "</pre>\x7btheorem\x7d".toList := by
  intro text
  let sheet : Worksheet := ⟨.fresh "</pre>\x7btheorem\x7d", none,
    ⟨[.derivation ⟨"1<", [], none, some ⟨["&lt;", "\""]⟩, "1<:: &lt; \"", 1⟩]⟩⟩
  have hload : load {} text = .ok sheet := Except.eq_ok_of_toOption (by decide +kernel)
  obtain ⟨front, body, title, hcut, -, -, hbody, -, htitle, hlabel⟩ :=
    @exists_cut_page {} sheet _ rfl rfl rfl
  exact ⟨sheet, _, hload, rfl, front, body, title, hcut, hbody, htitle, hlabel⟩

end Worksheet

end ProofSheet
