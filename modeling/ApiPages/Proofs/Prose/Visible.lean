import ApiPages.Proofs.Prose.Step
import ApiPages.Proofs.Text.Visible

/-! Prose keeps its visible characters: the pass holds back those of the paragraph so far, and writes
all others. -/
namespace ApiPages.Prose

open Text (visible visible_append)

theorem visible_tighten (t : Text) : visible (tighten t) = visible t := by
  induction t with
  | nil => rfl
  | cons c cs ih =>
    simp only [tighten]
    split
    · next h =>
      have hspace : c = ' ' := of_decide_eq_true (Bool.and_eq_true_iff.mp h).1
      subst hspace
      rw [ih, Text.visible_cons_blank (by decide)]
    · cases hc : Text.isBlank c with
      | true => rw [Text.visible_cons_blank hc, Text.visible_cons_blank hc, ih]
      | false => rw [Text.visible_cons hc, Text.visible_cons hc, ih]

theorem visible_tidy (line : Text) : visible (tidy line) = visible line := by
  rw [tidy, Text.visible_trim,
    Text.visible_replaceRuns (fun _ => isBlank_of_isSpaceOrTab) (by decide)]

theorem flatMap_visible_paragraphLines (paragraph : List Text) :
    (paragraphLines paragraph).flatMap visible = paragraph.flatMap visible := by
  cases paragraph with
  | nil => rfl
  | cons l ls =>
    rw [paragraphLines, if_neg (by simp), List.flatMap_singleton, visible_tighten,
      Text.visible_join (by decide)]

private theorem flatMap_visible_endParagraph (open_ : Bool) (paragraph : List Text) :
    (endParagraph open_ paragraph).flatMap visible = paragraph.flatMap visible := by
  rw [endParagraph, List.flatMap_append, flatMap_visible_paragraphLines]
  split <;> exact List.append_nil _

/-- What a step writes and what it holds back are what was held back before and the line. -/
theorem Step.visible {state next : State} {line : Text} {out : List Text}
    (h : Step state line out next) :
    out.flatMap Text.visible ++ next.paragraph.flatMap Text.visible =
      state.paragraph.flatMap Text.visible ++ Text.visible line := by
  cases h with
  | closes hf =>
    rw [List.flatMap_cons, Text.visible_trim]
    simp [State.paragraph, Text.visible]
  | copies hf => simp [State.paragraph]
  | opens hf =>
    rw [List.flatMap_append, flatMap_visible_endParagraph, List.flatMap_singleton, visible_tidy]
    exact List.append_nil _
  | breaks hempty =>
    have hline : Text.visible line = [] := by rw [← visible_tidy, hempty]; rfl
    rw [flatMap_visible_endParagraph, hline]
    rfl
  | starts _ _ _ =>
    rw [flatMap_visible_paragraphLines]
    simp [State.paragraph, visible_tidy]
  | joins _ _ _ => simp [State.paragraph, visible_tidy]

theorem Run.visible {state last : State} {lines out : List Text} (h : Run state lines out last) :
    out.flatMap Text.visible ++ last.paragraph.flatMap Text.visible =
      state.paragraph.flatMap Text.visible ++ lines.flatMap Text.visible := by
  induction h with
  | nil => simp
  | @cons state line out next lines outs last hstep hrun ih =>
    rw [List.flatMap_append, List.append_assoc, ih, ← List.append_assoc, hstep.visible,
      List.append_assoc, List.flatMap_cons]

/-- Where lines end, the rest of the paragraph is written, or a fence for code that is not closed. -/
theorem flatMap_visible_pass_nil (state : State) :
    (pass state []).flatMap visible =
      state.paragraph.flatMap visible ++ if state.inCode then fence else [] := by
  cases state with
  | code => decide
  | text open_ paragraph =>
    rw [pass, flatMap_visible_paragraphLines]
    exact (List.append_nil _).symm

private theorem flatMap_visible_dropEmptyEnds (lines : List Text) :
    (dropEmptyEnds lines).flatMap visible = lines.flatMap visible := by
  refine Text.flatMap_dropEnds (fun line hline => ?_) lines
  rw [List.isEmpty_iff.mp hline]
  rfl

/-- The normal form has the visible characters of the text, and a fence behind them when code is not
closed. -/
theorem visible_normalize (t : Text) :
    visible (normalize t) = visible t ++ if endsInCode t then fence else [] := by
  obtain ⟨out, last, hrun, hpass⟩ := exists_run (.text false []) (Text.lines t)
  have hcode : last.inCode = endsInCode t := by
    rw [hrun.inCode]
    exact Bool.false_bne _
  have hnil := hpass []
  rw [List.append_nil] at hnil
  rw [normalize, Text.visible_unlines, flatMap_visible_dropEmptyEnds, hnil, List.flatMap_append,
    flatMap_visible_pass_nil, ← List.append_assoc, hrun.visible, Text.flatMap_visible_lines, hcode]
  rfl

end ApiPages.Prose
