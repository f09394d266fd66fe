import ApiPages.Proofs.Prose.Blocks
import ApiPages.Proofs.Prose.Line
import ApiPages.Proofs.Prose.Paragraphs

/-! The normal form, as a reader finds it who takes its lines one by one and knows nothing of the pass:
code is closed, blank lines stand alone between blocks, and every line of prose is neat. The pass keeps
true that each line it writes fits behind those written before. -/
namespace ApiPages.Prose

/-- Whether the lines end inside of code when every fence among them opens or closes it. -/
def inCodeAfter (lines : List Text) : Bool :=
  lines.foldl (fun inside line => inside != isFenceLine line) false

/-- What a reader finds in lines. The empty text has the single line that is empty. -/
structure IsNormal (lines : List Text) : Prop where
  closed : inCodeAfter lines = false
  filled : lines = [[]] ∨ (∀ l ∈ lines.head?, Text.isBlankText l = false) ∧
    ∀ l ∈ lines.getLast?, Text.isBlankText l = false
  /-- Outside of code no two lines side by side are blank. -/
  apart : ∀ before first second after, lines = before ++ first :: second :: after →
    inCodeAfter before = false → inCodeAfter (before ++ [first]) = false →
    Text.isBlankText first = true → Text.isBlankText second = false
  /-- A fence that opens code stands behind a blank line or at the start. -/
  opening : ∀ before line after, lines = before ++ line :: after → inCodeAfter before = false →
    isFenceLine line = true → ∀ l ∈ before.getLast?, Text.isBlankText l = true
  /-- A fence that closes code stands before a blank line or at the end. -/
  closing : ∀ before line after, lines = before ++ line :: after → inCodeAfter before = true →
    isFenceLine line = true → ∀ l ∈ after.head?, Text.isBlankText l = true
  neat : ∀ before line after, lines = before ++ line :: after → inCodeAfter before = false →
    isFenceLine line = false → Neat line

variable {before lines written : List Text} {line : Text}

private theorem inCodeAfter_concat (lines : List Text) (line : Text) :
    inCodeAfter (lines ++ [line]) = (inCodeAfter lines != isFenceLine line) :=
  List.foldl_concat _ _ _ _

private theorem isBlankText_of_isFenceLine (h : isFenceLine line = true) : Text.isBlankText line = false := by
  rw [Bool.eq_false_iff]
  intro hblank
  have hnil : Text.trim line = [] :=
    Text.trim_eq_nil_iff.mpr (Text.visible_eq_nil_iff.mpr (List.all_eq_true.mp hblank))
  rw [isFenceLine, hnil] at h
  cases h

private theorem neat_nil : Neat [] where
  tab := List.not_mem_nil
  first _ h := by cases h
  last _ h := by cases h
  single := .nil
  tight := .nil

/-! ### Lines that fit -/

/-- What a line of the normal form must keep to, given the lines before it. -/
structure Fits (before : List Text) (line : Text) : Prop where
  blank : inCodeAfter before = false → Text.isBlankText line = true →
    ∃ l, before.getLast? = some l ∧ Text.isBlankText l = false
  opening : inCodeAfter before = false → isFenceLine line = true →
    ∀ l ∈ before.getLast?, Text.isBlankText l = true
  closing : ∀ front last, before = front ++ [last] → inCodeAfter front = true →
    isFenceLine last = true → Text.isBlankText line = true
  neat : inCodeAfter before = false → isFenceLine line = false → Neat line

/-- Inside of code every line fits. -/
theorem fits_inside (h : inCodeAfter before = true) (line : Text) : Fits before line where
  blank hf := by simp [h] at hf
  opening hf := by simp [h] at hf
  closing front last he hfront hlast := by
    rw [he, inCodeAfter_concat, hfront, hlast] at h
    cases h
  neat hf := by simp [h] at hf

private theorem fits_opening (hlast : ∀ l ∈ before.getLast?, l = []) (hf : isFenceLine line = true) :
    Fits before line where
  blank _ hblank := by simp [isBlankText_of_isFenceLine hf] at hblank
  opening _ _ l hl := by
    rw [hlast l hl]
    rfl
  closing front last he _ hfence := by
    rw [hlast last (by simp [he])] at hfence
    cases hfence
  neat _ hn := by simp [hf] at hn

private theorem fits_piece (hlast : ∀ l ∈ before.getLast?, isFenceLine l = false) (hp : Piece line)
    (hn : Neat line) : Fits before line where
  blank _ hblank := by simp [hp.isBlankText hp.ne_nil] at hblank
  opening _ hf := by simp [isFenceLine_eq hp.toSpaced, hp.noFence] at hf
  closing front last he _ hfence := by simp [hlast last (by simp [he])] at hfence
  neat _ _ := hn

private theorem fits_blank {l : Text} (hl : before.getLast? = some l) (hblank : Text.isBlankText l = false) :
    Fits before [] where
  blank _ _ := ⟨l, hl, hblank⟩
  opening _ hf := by cases hf
  closing _ _ _ _ _ := rfl
  neat _ _ := neat_nil

/-- Each of the lines fits behind those before it. -/
def AllFit (lines : List Text) : Prop :=
  ∀ before line after, lines = before ++ line :: after → Fits before line

theorem AllFit.concat (h : AllFit lines) (hl : Fits lines line) : AllFit (lines ++ [line]) := by
  intro before l after he
  rcases List.eq_nil_or_concat after with rfl | ⟨after, x, rfl⟩
  · obtain ⟨rfl, hline⟩ := List.append_inj' he rfl
    cases hline
    exact hl
  · have hsplit : lines ++ [line] = before ++ l :: after ++ [x] := by simpa using he
    exact h before l after (List.append_inj' hsplit rfl).1

/-! ### What the pass keeps true -/

/-- On which line the lines written so far end. -/
def State.Rests : State → List Text → Prop
  | .code, _ => True
  | .text open_ _, written =>
    if open_ then
      ∃ l, written.getLast? = some l ∧ Text.isBlankText l = false ∧ isFenceLine l = false
    else ∀ l ∈ written.getLast?, l = []

/-- What is true of the lines written so far, in the state that the pass has reached. -/
structure Shaped (state : State) (written : List Text) : Prop where
  fits : AllFit written
  side : inCodeAfter written = state.inCode
  rests : state.Rests written
  pieces : ∀ l ∈ state.paragraph, Piece l

private theorem pieces_nil : ∀ l ∈ ([] : List Text), Piece l := fun _ h => absurd h List.not_mem_nil

private theorem shaped_start : Shaped (.text false []) [] where
  fits before line after h := by simp at h
  side := rfl
  rests l h := by cases h
  pieces := pieces_nil

/-- A blank line is written behind one that is not blank. -/
theorem shaped_blank (hfits : AllFit written) (hside : inCodeAfter written = false) {l : Text}
    (hl : written.getLast? = some l) (hblank : Text.isBlankText l = false) :
    Shaped (.text false []) (written ++ [[]]) where
  fits := hfits.concat (fits_blank hl hblank)
  side := by
    rw [inCodeAfter_concat, hside]
    rfl
  rests l hl := by
    rw [List.getLast?_concat] at hl
    exact (Option.some.inj hl).symm
  pieces := pieces_nil

namespace Shaped

variable {open_ : Bool} {paragraph : List Text}

private theorem lastNoFence (h : Shaped (.text open_ paragraph) written) :
    ∀ l ∈ written.getLast?, isFenceLine l = false := by
  intro l hl
  have hrests := h.rests
  cases open_ with
  | true =>
    obtain ⟨last, hlast, -, hf⟩ := hrests
    rw [hlast] at hl
    cases hl
    exact hf
  | false =>
    rw [hrests l hl]
    rfl

theorem paragraphLine (h : Shaped (.text open_ paragraph) written) (hne : paragraph ≠ []) :
    ∃ line, paragraphLines paragraph = [line] ∧ Piece line ∧ AllFit (written ++ [line]) ∧
      inCodeAfter (written ++ [line]) = false := by
  obtain ⟨line, hlines, -, hpiece, hneat⟩ := exists_paragraphLine h.pieces hne
  refine ⟨line, hlines, hpiece, h.fits.concat (fits_piece h.lastNoFence hpiece hneat), ?_⟩
  rw [inCodeAfter_concat, h.side, isFenceLine_eq hpiece.toSpaced, hpiece.noFence]
  rfl

theorem endParagraph (h : Shaped (.text open_ paragraph) written) :
    Shaped (.text false []) (written ++ Prose.endParagraph open_ paragraph) := by
  by_cases hp : paragraph = []
  · subst hp
    cases open_ with
    | true =>
      obtain ⟨l, hl, hblank, -⟩ := h.rests
      exact shaped_blank h.fits h.side hl hblank
    | false =>
      show Shaped _ (written ++ [])
      rw [List.append_nil]
      exact h
  · obtain ⟨line, hlines, hpiece, hfits, hside⟩ := h.paragraphLine hp
    have hblank := shaped_blank hfits hside List.getLast?_concat (hpiece.isBlankText hpiece.ne_nil)
    rw [Prose.endParagraph, hlines, if_pos (by simp [hp]), ← List.append_assoc]
    exact hblank

end Shaped

private theorem Step.shaped {state next : State} {out : List Text} (hs : Shaped state written)
    (h : Step state line out next) : Shaped next (written ++ out) := by
  have hpieces := h.pieces hs.pieces
  cases h with
  | @closes line hf =>
    have hfence : isFenceLine (Text.trim line) = true := by rw [isFenceLine, Text.trim_trim, hf]
    have hside : inCodeAfter (written ++ [Text.trim line]) = false := by
      rw [inCodeAfter_concat, hs.side, hfence]
      rfl
    have hclosed := shaped_blank (hs.fits.concat (fits_inside hs.side _)) hside List.getLast?_concat
      (isBlankText_of_isFenceLine hfence)
    rw [List.append_assoc] at hclosed
    exact hclosed
  | copies hf =>
    refine ⟨hs.fits.concat (fits_inside hs.side _), ?_, trivial, hpieces⟩
    rw [inCodeAfter_concat, hs.side, isFenceLine, hf]
    rfl
  | @opens open_ paragraph line hf =>
    have hended := hs.endParagraph
    have hfence : isFenceLine (tidy line) = true := by rw [isFenceLine_eq (spaced_tidy line), hf]
    rw [← List.append_assoc]
    refine ⟨hended.fits.concat (fits_opening hended.rests hfence), ?_, trivial, hpieces⟩
    rw [inCodeAfter_concat, hended.side, hfence]
    rfl
  | breaks hempty => exact hs.endParagraph
  | @starts open_ paragraph line hf hempty hblock =>
    by_cases hp : paragraph = []
    · subst hp
      rw [List.isEmpty_nil, Bool.not_true, Bool.or_false, paragraphLines_nil,
        List.append_nil] at *
      exact ⟨hs.fits, hs.side, hs.rests, hpieces⟩
    · obtain ⟨l, hlines, hpiece, hfits, hside⟩ := hs.paragraphLine hp
      have hopen : (open_ || !paragraph.isEmpty) = true := by simp [hp]
      rw [hopen, hlines]
      refine ⟨hfits, hside, ⟨l, List.getLast?_concat, hpiece.isBlankText hpiece.ne_nil, ?_⟩, hpieces⟩
      rw [isFenceLine_eq hpiece.toSpaced, hpiece.noFence]
  | @joins open_ paragraph line hf hempty hblock =>
    rw [List.append_nil]
    exact ⟨hs.fits, hs.side, hs.rests, hpieces⟩

private theorem Run.shaped {state last : State} {out : List Text} (hs : Shaped state written)
    (h : Run state lines out last) : Shaped last (written ++ out) :=
  h.preserves (fun _ hstep hs => hstep.shaped hs) hs

/-- All that a pass writes fits, and code is closed at its end. -/
theorem allFit_pass (lines : List Text) : AllFit (pass (.text false []) lines) ∧
    inCodeAfter (pass (.text false []) lines) = false := by
  obtain ⟨out, last, hrun, hpass⟩ := exists_run (.text false []) lines
  have hs : Shaped last out := hrun.shaped shaped_start
  have hnil := hpass []
  rw [List.append_nil] at hnil
  rw [hnil]
  cases last with
  | code =>
    refine ⟨hs.fits.concat (fits_inside hs.side _), ?_⟩
    rw [pass, inCodeAfter_concat, hs.side]
    decide
  | text open_ paragraph =>
    rw [pass]
    by_cases hp : paragraph = []
    · subst hp
      rw [paragraphLines_nil, List.append_nil]
      exact ⟨hs.fits, hs.side⟩
    · obtain ⟨line, hlines, -, hfits, hside⟩ := hs.paragraphLine hp
      rw [hlines]
      exact ⟨hfits, hside⟩

/-! ### The reader's view -/

private theorem AllFit.isNormal (h : AllFit lines) (hclosed : inCodeAfter lines = false)
    (hlast : lines.getLast? ≠ some []) : IsNormal lines where
  closed := hclosed
  filled := by
    refine Or.inr ⟨fun l hl => ?_, fun l hl => ?_⟩
    · obtain ⟨rest, rfl⟩ := List.head?_eq_some_iff.mp hl
      rw [Bool.eq_false_iff]
      intro hblank
      obtain ⟨_, hnone, _⟩ := (h [] l rest rfl).blank rfl hblank
      cases hnone
    · obtain ⟨front, rfl⟩ := List.getLast?_eq_some_iff.mp hl
      rw [inCodeAfter_concat] at hclosed
      cases hf : isFenceLine l with
      | true => exact isBlankText_of_isFenceLine hf
      | false =>
        rw [hf, Bool.bne_false] at hclosed
        refine ((h front l [] rfl).neat hclosed hf).isBlankText ?_
        rintro rfl
        exact hlast hl
  apart before first second after he _ hout hblank := by
    rw [Bool.eq_false_iff]
    intro hsecond
    have hfits := h (before ++ [first]) second after (by simp [he])
    obtain ⟨l, hl, hl'⟩ := hfits.blank hout hsecond
    rw [List.getLast?_concat] at hl
    cases hl
    rw [hblank] at hl'
    cases hl'
  opening before line after he := (h before line after he).opening
  closing before line after he hin hf l hl := by
    obtain ⟨rest, rfl⟩ := List.head?_eq_some_iff.mp hl
    exact (h (before ++ [line]) l rest (by simp [he])).closing before line rfl hin hf
  neat before line after he := (h before line after he).neat

private theorem isNormal_empty : IsNormal [[]] := by
  have hsingle {before after : List Text} {line : Text} (he : [[]] = before ++ line :: after) :
      before = [] ∧ line = [] ∧ after = [] := by
    cases before with
    | nil => simpa using he.symm
    | cons b bs => simp at he
  refine ⟨rfl, Or.inl rfl, fun before first second after he => ?_, fun before line after he => ?_,
    fun before line after he => ?_, fun before line after he _ _ => ?_⟩
  · obtain ⟨-, -, hafter⟩ := hsingle he
    cases hafter
  · obtain ⟨rfl, rfl, -⟩ := hsingle he
    exact fun _ hf => by cases hf
  · obtain ⟨rfl, rfl, -⟩ := hsingle he
    exact fun _ hf => by cases hf
  · rw [(hsingle he).2.1]
    exact neat_nil

private theorem inCodeAfter_append_empty (lines : List Text) {empty : List Text} (h : ∀ l ∈ empty, l = []) :
    inCodeAfter (lines ++ empty) = inCodeAfter lines := by
  induction empty generalizing lines with
  | nil => rw [List.append_nil]
  | cons l ls ih =>
    obtain ⟨hl, hls⟩ := List.forall_mem_cons.mp h
    rw [List.append_cons, ih _ hls, inCodeAfter_concat, hl]
    exact Bool.bne_false _

/-- Whoever reads the normal form of a text line by line finds every fence matched by another, blank
lines around code and nowhere two of them outside of it, none at the beginning or end, and every other
line outside of code without tabs, without blanks at its ends, without two spaces side by side, and
without a space directly before a point, comma, semicolon, colon or closing bracket. -/
theorem normal_form_is_neat (t : Text) : IsNormal (Text.lines (normalize t)) := by
  obtain ⟨hfits, hclosed⟩ := allFit_pass (Text.lines t)
  by_cases hne : dropEmptyEnds (pass (.text false []) (Text.lines t)) = []
  · rw [normalize, hne]
    exact isNormal_empty
  · rw [lines_normalize hne]
    rw [dropEmptyEnds_of_first (first_pass _)] at hne ⊢
    generalize pass (.text false []) (Text.lines t) = written at *
    have hsplit := List.rdropWhile_append_rtakeWhile (p := List.isEmpty) (l := written)
    have hempty : ∀ l ∈ written.rtakeWhile List.isEmpty, l = [] :=
      fun l hl => List.isEmpty_iff.mp (List.mem_rtakeWhile_imp hl)
    refine AllFit.isNormal (fun before line after he => ?_) ?_ fun hlast => ?_
    · refine hfits before line (after ++ written.rtakeWhile List.isEmpty) ?_
      conv_lhs => rw [← hsplit, he]
      simp
    · rw [← inCodeAfter_append_empty _ hempty, hsplit, hclosed]
    · rw [List.getLast?_eq_some_getLast hne] at hlast
      exact List.rdropWhile_last_not _ _ hne (List.isEmpty_iff.mpr (Option.some.inj hlast))

end ApiPages.Prose
