import ApiPages.Proofs.Prose.Blocks
import ApiPages.Proofs.Prose.Line
import ApiPages.Proofs.Prose.Paragraphs

/-! Normalizing twice. A second pass over what a first one has written is in step with it: the line of a
paragraph that was written is read as a paragraph of one line, and it starts a block when the first line
of the paragraph did. Only tightening could change that, where it joins punctuation to the marker of a
list item. -/
namespace ApiPages.Prose

/-- What marks a list item: a hyphen, a star, a plus, or a number with a point. -/
inductive Marker : Text → Prop
  | sign {c} : c ∈ ['-', '*', '+'] → Marker [c]
  | number {digits} : digits ≠ [] → (∀ c ∈ digits, Text.isDigit c = true) → Marker (digits ++ ['.'])

/-- The line is no list item whose text begins with punctuation that a space before is taken from. -/
def Loose (line : Text) : Prop :=
  ∀ marker c rest, Marker marker → line = marker ++ ' ' :: c :: rest → isTight c = false

variable {line : Text} {written : List Text}

theorem Marker.not_mem {marker : Text} (h : Marker marker) {c : Char} (hdigit : Text.isDigit c = false)
    (hc : c ∉ ['-', '*', '+', '.']) : c ∉ marker := by
  simp only [List.mem_cons, List.not_mem_nil, or_false, not_or] at hc
  obtain ⟨hminus, hstar, hplus, hpoint⟩ := hc
  cases h with
  | sign hs =>
    rw [List.mem_singleton]
    rintro rfl
    simp [hminus, hstar, hplus] at hs
  | number hne hdigits =>
    rw [List.mem_append, List.mem_singleton, not_or]
    exact ⟨fun hm => by simp [hdigits c hm] at hdigit, hpoint⟩

theorem Marker.ne_nil {marker : Text} (h : Marker marker) : marker ≠ [] := by
  cases h <;> simp

theorem Marker.space_not_mem {marker : Text} (h : Marker marker) : ' ' ∉ marker :=
  h.not_mem (by decide) (by decide)

private theorem startsBlock_number {digits : Text} (hne : digits ≠ [])
    (hdigits : ∀ c ∈ digits, Text.isDigit c = true) (rest : Text) :
    startsBlock (digits ++ '.' :: ' ' :: rest) = true := by
  have hpoint : Text.isDigit '.' = false := by decide
  have hnumbered : startsNumbered (digits ++ '.' :: ' ' :: rest) = true := by
    rw [startsNumbered, List.takeWhile_append_of_pos hdigits, List.dropWhile_append_of_pos hdigits,
      List.takeWhile_cons_of_neg (by simp [hpoint]), List.dropWhile_cons_of_neg (by simp [hpoint]),
      List.append_nil]
    simp [hne, List.isPrefixOf]
  unfold startsBlock
  split <;> first | rfl | exact hnumbered

/-- A line starts a block when it is a table row, or a list item with its marker and a space. -/
theorem startsBlock_iff : startsBlock line = true ↔
    (∃ rest, line = '|' :: rest) ∨ ∃ marker rest, Marker marker ∧ line = marker ++ ' ' :: rest := by
  constructor
  · intro h
    unfold startsBlock at h
    split at h
    · exact Or.inl ⟨_, rfl⟩
    · exact Or.inr ⟨['-'], _, .sign (by decide), rfl⟩
    · exact Or.inr ⟨['*'], _, .sign (by decide), rfl⟩
    · exact Or.inr ⟨['+'], _, .sign (by decide), rfl⟩
    · rw [startsNumbered, Bool.and_eq_true, List.isPrefixOf_iff_prefix] at h
      obtain ⟨hne, rest, hrest⟩ := h
      refine Or.inr ⟨line.takeWhile Text.isDigit ++ ['.'], rest,
        .number (by simpa using hne) fun c hc => List.mem_takeWhile_imp hc, ?_⟩
      conv_lhs => rw [← List.takeWhile_append_dropWhile (p := Text.isDigit) (l := line), ← hrest]
      simp
  · rintro (⟨rest, rfl⟩ | ⟨marker, rest, hmarker, rfl⟩)
    · rfl
    · cases hmarker with
      | sign hc =>
        simp only [List.mem_cons, List.not_mem_nil, or_false] at hc
        rcases hc with rfl | rfl | rfl <;> rfl
      | number hne hdigits =>
        rw [List.append_assoc]
        exact startsBlock_number hne hdigits rest

theorem Marker.dropWhile {marker : Text} (h : Marker marker) (rest : Text) :
    (marker ++ ' ' :: rest).dropWhile (· ≠ ' ') = ' ' :: rest := by
  rw [List.dropWhile_append_of_pos, List.dropWhile_cons_of_neg (by simp)]
  intro c hc
  exact decide_eq_true (ne_of_mem_of_not_mem hc h.space_not_mem)

/-- Only what stands behind the first space of a list item has to be looked at. -/
theorem loose_iff : Loose line ↔ line.head? ≠ some '|' → startsBlock line = true →
    ((line.dropWhile (· ≠ ' ')).drop 1).head?.all (!isTight ·) = true := by
  rw [Option.all_eq_true]
  constructor
  · intro h hbar hblock c hc
    rw [Bool.not_eq_true']
    rcases startsBlock_iff.mp hblock with ⟨rest, rfl⟩ | ⟨marker, rest, hmarker, rfl⟩
    · exact absurd rfl hbar
    · rw [hmarker.dropWhile, List.drop_one, List.tail_cons] at hc
      obtain ⟨rest, rfl⟩ := List.head?_eq_some_iff.mp hc
      exact h marker c rest hmarker rfl
  · rintro h marker c rest hmarker rfl
    have hblock := startsBlock_iff.mpr (Or.inr ⟨marker, c :: rest, hmarker, rfl⟩)
    refine (Bool.not_eq_true' _).mp (h (fun hbar => ?_) hblock c ?_)
    · rw [List.head?_append_of_ne_nil _ hmarker.ne_nil] at hbar
      exact hmarker.not_mem (by decide) (by decide) (List.mem_of_mem_head? hbar)
    · rw [hmarker.dropWhile]
      rfl

instance (line : Text) : Decidable (Loose line) :=
  decidable_of_iff _ loose_iff.symm

theorem tighten_append {start : Text} (h : ' ' ∉ start) (t : Text) :
    tighten (start ++ t) = start ++ tighten t := by
  induction start with
  | nil => rfl
  | cons c cs ih =>
    rw [List.mem_cons, not_or] at h
    rw [List.cons_append, tighten_cons_of_ne (Ne.symm h.1), ih h.2, List.cons_append]

/-- A paragraph that starts a block still does when its first line is loose. -/
theorem startsBlock_tighten (hp : Piece line) (hblock : startsBlock line = true) (hloose : Loose line)
    (t : Text) : startsBlock (tighten (line ++ t)) = true := by
  rcases startsBlock_iff.mp hblock with ⟨rest, rfl⟩ | ⟨marker, rest, hmarker, rfl⟩
  · rw [List.cons_append, tighten_cons_of_ne (by decide)]
    rfl
  · cases rest with
    | nil => exact absurd List.getLast?_concat hp.space_not_last
    | cons c rest =>
      have hc : isTight c = false := hloose marker c rest hmarker rfl
      have hne : c ≠ ' ' :=
        (List.isChain_cons_cons.mp (List.isChain_append.mp hp.single).2.1).1 rfl
      have hkept : tighten (' ' :: c :: (rest ++ t)) = ' ' :: c :: tighten (rest ++ t) := by
        rw [tighten, tighten_cons_of_ne hne]
        simp [hc]
      rw [List.append_assoc, tighten_append hmarker.space_not_mem]
      refine startsBlock_iff.mpr (Or.inr ⟨marker, c :: tighten (rest ++ t), hmarker, ?_⟩)
      rw [List.cons_append, List.cons_append, hkept]

/-! ### Reading again -/

/-- How a second pass stands behind the lines written so far: it has written them as well. Of a line of
prose that may still be joined by others it has only made a paragraph. -/
def State.Reread : State → List Text → Prop
  | .code, written => Run (.text false []) written written .code
  | .text open_ _, written =>
    if open_ then
      ∃ front line before, written = front ++ [line] ∧ tighten line = line ∧
        Run (.text false []) written front (.text before [line])
    else Run (.text false []) written written (.text false [])

/-- A paragraph that follows a line with no blank line in between starts a block. -/
def State.StartsApart : State → Prop
  | .code => True
  | .text open_ paragraph => open_ = true → ∃ first rest, paragraph = first :: rest ∧
      startsBlock first = true ∧ Loose first

/-- What a second pass relies on between two lines of the first. -/
structure Settled (state : State) (written : List Text) : Prop where
  reread : state.Reread written
  apart : state.StartsApart
  pieces : ∀ l ∈ state.paragraph, Piece l

private theorem settled_start : Settled (.text false []) [] where
  reread := Run.nil
  apart h := by cases h
  pieces _ h := absurd h List.not_mem_nil

private theorem step_piece_starts (hp : Piece line) (hblock : startsBlock line = true) (open_ : Bool)
    (paragraph : List Text) :
    Step (.text open_ paragraph) line (paragraphLines paragraph)
      (.text (open_ || !paragraph.isEmpty) [line]) := by
  have htidy := tidy_eq_self hp.toSpaced
  have hstep := @Step.starts open_ paragraph line (by rw [htidy, hp.noFence])
    (by rw [htidy]; exact hp.ne_nil) (by rw [htidy, hblock])
  rw [htidy] at hstep
  exact hstep

private theorem step_piece_joins (hp : Piece line) (hblock : startsBlock line = false) (open_ : Bool)
    (paragraph : List Text) :
    Step (.text open_ paragraph) line [] (.text open_ (paragraph ++ [line])) := by
  have htidy := tidy_eq_self hp.toSpaced
  have hstep := @Step.joins open_ paragraph line (by rw [htidy, hp.noFence])
    (by rw [htidy]; exact hp.ne_nil) (by rw [htidy, hblock])
  rw [htidy] at hstep
  exact hstep

namespace Settled

variable {open_ : Bool} {paragraph : List Text}

/-- The line of a paragraph is read as a paragraph of its own. -/
theorem paragraphLine (h : Settled (.text open_ paragraph) written) (hne : paragraph ≠ []) :
    ∃ line before, paragraphLines paragraph = [line] ∧ tighten line = line ∧
      Run (.text false []) (written ++ [line]) written (.text before [line]) := by
  obtain ⟨line, hlines, hline, hpiece, hneat⟩ := exists_paragraphLine h.pieces hne
  have hreread := h.reread
  cases open_ with
  | false =>
    refine ⟨line, false, hlines, tighten_eq_self hneat.tight, ?_⟩
    have hrun : Run (.text false []) (written ++ [line]) (written ++ []) (.text false [line]) := by
      cases hblock : startsBlock line with
      | true => exact Run.concat hreread (step_piece_starts hpiece hblock false [])
      | false => exact Run.concat hreread (step_piece_joins hpiece hblock false [])
    rw [List.append_nil] at hrun
    exact hrun
  | true =>
    obtain ⟨front, last, before, rfl, htight, hrun⟩ := hreread
    obtain ⟨first, rest, rfl, hblock, hloose⟩ := h.apart rfl
    have hstarts : startsBlock line = true := by
      have hfirst : Piece first := h.pieces first List.mem_cons_self
      rw [hline]
      cases rest with
      | nil =>
        have hone := startsBlock_tighten hfirst hblock hloose []
        rw [List.append_nil] at hone
        exact hone
      | cons next rest =>
        rw [State.paragraph, Text.join_cons_cons, List.append_assoc]
        exact startsBlock_tighten hfirst hblock hloose _
    have hstep := step_piece_starts hpiece hstarts before [last]
    rw [paragraphLines, if_neg (by simp), Text.join, htight] at hstep
    exact ⟨line, _, hlines, tighten_eq_self hneat.tight, hrun.concat hstep⟩

end Settled

/-- A blank line behind a paragraph of one line writes the two. -/
theorem reread_blank {before : Bool} (htight : tighten line = line)
    (h : Run (.text false []) (written ++ [line]) written (.text before [line])) :
    Run (.text false []) (written ++ [line] ++ [[]]) (written ++ [line] ++ [[]])
      (.text false []) := by
  have hrun := h.concat (@Step.breaks before [line] [] rfl)
  rw [endParagraph, if_pos (by simp), paragraphLines, if_neg (by simp), Text.join, htight,
    ← List.append_assoc] at hrun
  exact hrun

theorem Settled.endParagraph {open_ : Bool} {paragraph : List Text}
    (h : Settled (.text open_ paragraph) written) :
    Settled (.text false []) (written ++ Prose.endParagraph open_ paragraph) := by
  refine ⟨?_, settled_start.apart, settled_start.pieces⟩
  by_cases hp : paragraph = []
  · subst hp
    cases open_ with
    | true =>
      obtain ⟨first, rest, hnil, -⟩ := h.apart rfl
      cases hnil
    | false =>
      show Run _ (written ++ []) (written ++ []) _
      rw [List.append_nil]
      exact h.reread
  · obtain ⟨line, before, hlines, htight, hrun⟩ := h.paragraphLine hp
    rw [Prose.endParagraph, hlines, if_pos (by simp [hp]), ← List.append_assoc]
    exact reread_blank htight hrun

private theorem Step.settled {state next : State} {out : List Text} (hs : Settled state written)
    (h : Step state line out next) (hloose : Loose (tidy line)) : Settled next (written ++ out) := by
  have hpieces := h.pieces hs.pieces
  cases h with
  | @closes line hf =>
    refine ⟨?_, settled_start.apart, hpieces⟩
    have hfence : isFence (Text.trim (Text.trim line)) = true := by rw [Text.trim_trim, hf]
    have hrun := (Run.concat hs.reread (.closes hfence)).concat (@Step.breaks false [] [] rfl)
    rw [Text.trim_trim, List.append_assoc, List.append_assoc] at hrun
    exact hrun
  | copies hf => exact ⟨Run.concat hs.reread (.copies hf), trivial, hpieces⟩
  | @opens open_ paragraph line hf =>
    refine ⟨?_, trivial, hpieces⟩
    have htidy := tidy_eq_self (spaced_tidy line)
    have hrun := Run.concat hs.endParagraph.reread
      (@Step.opens false [] (tidy line) (by rw [htidy, hf]))
    rw [htidy] at hrun
    rw [← List.append_assoc]
    exact hrun
  | breaks hempty => exact hs.endParagraph
  | @starts open_ paragraph line hf hempty hblock =>
    refine ⟨?_, fun _ => ⟨_, [], rfl, hblock, hloose⟩, hpieces⟩
    by_cases hp : paragraph = []
    · subst hp
      rw [List.isEmpty_nil, Bool.not_true, Bool.or_false, paragraphLines_nil, List.append_nil]
      exact hs.reread
    · obtain ⟨l, before, hlines, htight, hrun⟩ := hs.paragraphLine hp
      have hopen : (open_ || !paragraph.isEmpty) = true := by simp [hp]
      rw [hopen, hlines]
      exact ⟨written, l, before, rfl, htight, hrun⟩
  | @joins open_ paragraph line hf hempty hblock =>
    rw [List.append_nil]
    refine ⟨hs.reread, fun hopen => ?_, hpieces⟩
    obtain ⟨first, rest, rfl, hfirst⟩ := hs.apart hopen
    exact ⟨first, rest ++ [tidy line], rfl, hfirst⟩

private theorem Run.settled {state last : State} {lines out : List Text} (hs : Settled state written)
    (h : Run state lines out last) (hloose : ∀ line ∈ lines, Loose (tidy line)) :
    Settled last (written ++ out) :=
  h.preserves (fun hl hstep hs => hstep.settled hs (hloose _ hl)) hs

/-! ### The second normal form -/

/-- One more line ends the code or the paragraph that is still open, and writes what the end of the text
would, and perhaps a blank line behind it. -/
theorem exists_ending (state : State) : ∃ line out, Step state line out (.text false []) ∧
    Loose (tidy line) ∧ (out = pass state [] ∨ out = pass state [] ++ [[]]) := by
  cases state with
  | code =>
    refine ⟨fence, [fence, []], .closes (by decide), fun marker c rest hmarker he => ?_, Or.inr rfl⟩
    have hspace : ' ' ∈ tidy fence := he ▸ List.mem_append_right _ List.mem_cons_self
    exact absurd hspace (by decide)
  | text open_ paragraph =>
    refine ⟨[], endParagraph open_ paragraph, .breaks rfl, fun marker c rest _ he => ?_, ?_⟩
    · exact absurd he.symm (by simp [tidy, Text.trim, Text.trimBoth, Text.replaceRuns,
        Text.replaceRunsFrom, Text.dropEndWhile])
    · rw [endParagraph, pass]
      split
      · exact Or.inr rfl
      · exact Or.inl (List.append_nil _)

/-- A text is its own normal form when a pass over its lines and a blank line writes them again. -/
theorem normalize_eq_self {lines : List Text} (hfilled : Filled lines)
    (hlines : Text.lines (Text.unlines lines) = lines)
    (h : Run (.text false []) (lines ++ [[]]) (lines ++ [[]]) (.text false [])) :
    normalize (Text.unlines lines) = Text.unlines lines := by
  have hcode : endsInCode (Text.unlines lines) = false := by
    have hside := h.inCode
    rw [List.countP_append] at hside
    rw [endsInCode, hlines]
    exact ((Bool.false_bne _).symm.trans hside.symm)
  have hboth : Text.lines (Text.unlines lines ++ "\n\n".toList ++ []) = lines ++ [[]] ++ [[]] := by
    rw [List.append_assoc]
    show Text.lines (Text.unlines lines ++ '\n' :: ([] ++ '\n' :: [])) = _
    rw [Text.lines_append, Text.lines_append, hlines, List.append_assoc]
    rfl
  calc normalize (Text.unlines lines)
      = paragraphs [normalize (Text.unlines lines), normalize []] :=
        (paragraphs_empty_right _).symm
    _ = normalize (Text.unlines lines ++ "\n\n".toList ++ []) := (normalize_append hcode []).symm
    _ = Text.unlines (dropEmptyEnds (lines ++ [[]] ++ pass (.text false []) [[]])) := by
        rw [normalize, hboth, h.pass_append]
    _ = Text.unlines lines := by
        show Text.unlines (dropEmptyEnds (lines ++ [[]] ++ [])) = _
        rw [List.append_nil, dropEmptyEnds_blank hfilled.first, hfilled.dropEmptyEnds]

/-- Normalizing again changes nothing, when no line of the text is a list item whose text begins with a
point, comma, semicolon, colon or closing bracket. -/
theorem normalizing_again_changes_nothing (t : Text)
    (h : ∀ line ∈ Text.lines t, Loose (tidy line)) : normalize (normalize t) = normalize t := by
  obtain ⟨out, last, hrun, hpass⟩ := exists_run (.text false []) (Text.lines t)
  obtain ⟨line, more, hstep, hloose, hmore⟩ := exists_ending last
  have hsettled : Settled (.text false []) (out ++ more) :=
    hstep.settled (hrun.settled settled_start h) hloose
  have hended : Ended (out ++ more) := (hstep.sound (hrun.sound sound_start)).stands
  have hnil := hpass []
  rw [List.append_nil] at hnil
  have hdrop : dropEmptyEnds (pass (.text false []) (Text.lines t)) = dropEmptyEnds (out ++ more) := by
    have hfirst := first_pass (Text.lines t)
    rw [hnil] at hfirst ⊢
    rcases hmore with rfl | rfl
    · rfl
    · rw [← List.append_assoc, dropEmptyEnds_blank hfirst]
  have hreread : Run (.text false []) (out ++ more) (out ++ more) (.text false []) := hsettled.reread
  generalize out ++ more = written at *
  cases hended with
  | nothing =>
    have hempty : normalize t = [] := by rw [normalize, hdrop]; rfl
    rw [hempty]
    rfl
  | @blank lines hfilled =>
    rw [dropEmptyEnds_blank hfilled.first, hfilled.dropEmptyEnds] at hdrop
    have hlines := lines_normalize (t := t) (by rw [hdrop]; exact hfilled.ne_nil)
    rw [hdrop] at hlines
    have hnormal : normalize t = Text.unlines lines := by rw [normalize, hdrop]
    rw [hnormal] at hlines ⊢
    exact normalize_eq_self hfilled hlines hreread

/-- A paragraph over two lines, an item that goes on with a hyphen and a point, a numbered one, and code
that is not closed. -/
def listBeforeCode : Text := "One ,\n two\n- a ;\n-\n.b\n12. c )\n```x\n  y  \n".toList

theorem normalizing_again_changes_nothing_in_a_list :
    (∀ line ∈ Text.lines listBeforeCode, Loose (tidy line)) ∧
    normalize (normalize listBeforeCode) = normalize listBeforeCode ∧
    normalize listBeforeCode = "One, two\n- a; -.b\n12. c)\n\n```x\n  y  \n\n```".toList :=
  have h : ∀ line ∈ Text.lines listBeforeCode, Loose (tidy line) := by decide +kernel
  ⟨h, normalizing_again_changes_nothing listBeforeCode h, by decide +kernel⟩

-- An item that is not loose: its marker loses the space, and is read as prose the second time.
example : normalize (normalize "a\n- .b".toList) ≠ normalize "a\n- .b".toList := by decide +kernel

end ApiPages.Prose
