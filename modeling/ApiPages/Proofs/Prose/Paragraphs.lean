import ApiPages.Proofs.Prose.Visible

/-! Where empty lines stand in what a pass writes, and why a blank line between two texts makes their
normal forms independent of each other. -/
namespace ApiPages.Prose

/-- Lines of which the first is not empty. -/
structure Begun (lines : List Text) : Prop where
  ne_nil : lines ≠ []
  first : lines.head? ≠ some []

/-- Lines of which neither the first nor the last is empty. -/
structure Filled (lines : List Text) : Prop extends Begun lines where
  last : lines.getLast? ≠ some []

/-- Nothing, or filled lines and one empty line behind them. -/
inductive Ended : List Text → Prop
  | nothing : Ended []
  | blank {lines} : Filled lines → Ended (lines ++ [[]])

variable {written lines : List Text}

theorem Filled.singleton {line : Text} (h : line ≠ []) : Filled [line] :=
  ⟨⟨by simp, by simpa using h⟩, by simpa using h⟩

theorem Begun.append (h : Begun written) (lines : List Text) : Begun (written ++ lines) where
  ne_nil := by simp [h.ne_nil]
  first := by
    rw [List.head?_append_of_ne_nil _ h.ne_nil]
    exact h.first

private theorem Begun.fill (hw : Begun written) (hl : Filled lines) : Filled (written ++ lines) where
  toBegun := hw.append lines
  last := by
    rw [List.getLast?_append_of_ne_nil _ hl.ne_nil]
    exact hl.last

private theorem Ended.fill (hw : Ended written) (hl : Filled lines) : Filled (written ++ lines) := by
  cases hw with
  | nothing => exact hl
  | blank hfront => exact (hfront.append [[]]).fill hl

/-- What all that was written looks like when the pass stands in a state. -/
def State.Stands : State → List Text → Prop
  | .code, written => Begun written
  | .text open_ _, written => if open_ then Filled written else Ended written

/-- What a pass keeps true of its state and of all that was written. -/
structure Sound (state : State) (written : List Text) : Prop where
  stands : state.Stands written
  paragraph : ∀ line ∈ state.paragraph, Text.visible line ≠ []

theorem sound_start : Sound (.text false []) [] :=
  ⟨.nothing, fun _ h => absurd h List.not_mem_nil⟩

/-- The lines of a paragraph become one line, which is not empty. -/
theorem filled_paragraphLines {paragraph : List Text}
    (h : ∀ line ∈ paragraph, Text.visible line ≠ []) (hne : paragraph ≠ []) :
    Filled (paragraphLines paragraph) := by
  have hvisible : (paragraphLines paragraph).flatMap Text.visible ≠ [] := by
    obtain ⟨line, rest, rfl⟩ := List.exists_cons_of_ne_nil hne
    rw [flatMap_visible_paragraphLines, List.flatMap_cons]
    simp [h line List.mem_cons_self]
  rw [paragraphLines, if_neg (by simpa using hne)] at hvisible ⊢
  refine .singleton fun hnil => hvisible ?_
  rw [hnil]
  rfl

namespace Sound

variable {open_ : Bool} {paragraph : List Text}

private theorem fill (h : Sound (.text open_ paragraph) written) (hl : Filled lines) :
    Filled (written ++ lines) := by
  cases open_ with
  | true => exact Begun.fill (Filled.toBegun h.stands) hl
  | false => exact Ended.fill h.stands hl

/-- After the end of a paragraph all that was written is ended. -/
theorem endParagraph (h : Sound (.text open_ paragraph) written) :
    Ended (written ++ Prose.endParagraph open_ paragraph) := by
  by_cases hp : paragraph = []
  · subst hp
    cases open_ with
    | true => exact .blank h.stands
    | false =>
      show Ended (written ++ [])
      rw [List.append_nil]
      exact h.stands
  · have hfilled := h.fill (filled_paragraphLines h.paragraph hp)
    rw [Prose.endParagraph, if_pos (by simp [hp]), ← List.append_assoc]
    exact .blank hfilled

end Sound

private theorem filled_fence {line : Text} (h : isFence line = true) : Filled [line] :=
  .singleton (by rintro rfl; cases h)

private theorem visible_tidy_ne_nil {line : Text} (h : tidy line ≠ []) :
    Text.visible (tidy line) ≠ [] := by
  rw [tidy, ne_eq, Text.trim_eq_nil_iff] at h
  rw [tidy, Text.visible_trim]
  exact h

theorem Step.sound {state next : State} {line : Text} {out : List Text} (hs : Sound state written)
    (h : Step state line out next) : Sound next (written ++ out) := by
  have hnone : ∀ line ∈ ([] : List Text), Text.visible line ≠ [] :=
    fun _ hl => absurd hl List.not_mem_nil
  cases h with
  | closes hf =>
    refine ⟨?_, hnone⟩
    have hended := Ended.blank (Begun.fill hs.stands (filled_fence hf))
    rw [List.append_assoc] at hended
    exact hended
  | copies hf => exact ⟨Begun.append hs.stands _, hnone⟩
  | opens hf =>
    refine ⟨?_, hnone⟩
    rw [← List.append_assoc]
    exact (hs.endParagraph.fill (filled_fence hf)).toBegun
  | breaks hempty => exact ⟨hs.endParagraph, hnone⟩
  | @starts open_ paragraph line hf hempty hblock =>
    refine ⟨?_, List.forall_mem_singleton.mpr (visible_tidy_ne_nil hempty)⟩
    by_cases hp : paragraph = []
    · subst hp
      rw [List.isEmpty_nil, Bool.not_true, Bool.or_false, paragraphLines_nil, List.append_nil]
      exact hs.stands
    · have hopen : (open_ || !paragraph.isEmpty) = true := by simp [hp]
      rw [hopen]
      exact hs.fill (filled_paragraphLines hs.paragraph hp)
  | joins hf hempty hblock =>
    rw [List.append_nil]
    exact ⟨hs.stands, List.forall_mem_append.mpr
      ⟨hs.paragraph, List.forall_mem_singleton.mpr (visible_tidy_ne_nil hempty)⟩⟩

theorem Run.sound {state last : State} {out : List Text} (hs : Sound state written)
    (h : Run state lines out last) : Sound last (written ++ out) :=
  h.preserves (fun _ hstep hs => hstep.sound hs) hs

theorem Ended.first (h : Ended written) : written.head? ≠ some [] := by
  cases h with
  | nothing => simp
  | blank hfilled => exact (hfilled.toBegun.append [[]]).first

/-- A pass never writes an empty line first. -/
theorem first_pass (lines : List Text) : (pass (.text false []) lines).head? ≠ some [] := by
  obtain ⟨out, last, hrun, hpass⟩ := exists_run (.text false []) lines
  have hs : Sound last out := hrun.sound sound_start
  have hnil := hpass []
  rw [List.append_nil] at hnil
  rw [hnil]
  cases last with
  | code => exact (Begun.append hs.stands [fence]).first
  | text open_ paragraph =>
    rw [pass]
    by_cases hp : paragraph = []
    · subst hp
      rw [paragraphLines_nil, List.append_nil]
      cases open_ with
      | true => exact (Filled.toBegun hs.stands).first
      | false => exact Ended.first hs.stands
    · exact (hs.fill (filled_paragraphLines hs.paragraph hp)).first

theorem dropEmptyEnds_of_first (h : lines.head? ≠ some []) :
    dropEmptyEnds lines = lines.rdropWhile List.isEmpty := by
  cases lines with
  | nil => rfl
  | cons line rest =>
    have hline : ¬ line.isEmpty = true := by simpa using h
    rw [dropEmptyEnds, List.dropWhile_cons_of_neg hline]
    rfl

theorem Filled.dropEmptyEnds (h : Filled lines) : Prose.dropEmptyEnds lines = lines := by
  rw [dropEmptyEnds_of_first h.first, List.rdropWhile_eq_self_iff]
  intro hne hempty
  apply h.last
  rw [List.getLast?_eq_some_getLast hne, List.isEmpty_iff.mp hempty]

theorem dropEmptyEnds_blank (h : lines.head? ≠ some []) :
    dropEmptyEnds (lines ++ [[]]) = dropEmptyEnds lines := by
  cases lines with
  | nil => rfl
  | cons line rest =>
    rw [dropEmptyEnds_of_first h, dropEmptyEnds_of_first (by simpa using h)]
    exact List.rdropWhile_concat_pos _ _ _ rfl

private theorem pass_blank (open_ : Bool) (paragraph rest : List Text) :
    pass (.text open_ paragraph) ([] :: rest) =
      endParagraph open_ paragraph ++ pass (.text false []) rest := rfl

/-- Behind a text that does not end inside of code a blank line ends all that was written for it, and
the pass begins anew. -/
theorem exists_ended {a : Text} (h : endsInCode a = false) :
    ∃ written, Ended written ∧ normalize a = Text.unlines (dropEmptyEnds written) ∧
      ∀ b, pass (.text false []) (Text.lines (a ++ "\n\n".toList ++ b)) =
        written ++ pass (.text false []) (Text.lines b) := by
  obtain ⟨out, last, hrun, hpass⟩ := exists_run (.text false []) (Text.lines a)
  have hs : Sound last out := hrun.sound sound_start
  have hcode : last.inCode = false := by
    rw [hrun.inCode, ← h]
    exact Bool.false_bne _
  cases last with
  | code => cases hcode
  | text open_ paragraph =>
    refine ⟨out ++ endParagraph open_ paragraph, hs.endParagraph, ?_, fun b => ?_⟩
    · have hnil := hpass []
      rw [List.append_nil, pass] at hnil
      have hfirst := first_pass (Text.lines a)
      rw [hnil] at hfirst
      rw [normalize, hnil, endParagraph, ← List.append_assoc]
      split
      · rw [dropEmptyEnds_blank hfirst]
      · rw [List.append_nil]
    · have hlines : Text.lines (a ++ "\n\n".toList ++ b) = Text.lines a ++ [] :: Text.lines b := by
        rw [List.append_assoc]
        show Text.lines (a ++ '\n' :: ([] ++ '\n' :: b)) = _
        rw [Text.lines_append, Text.lines_append]
        rfl
      rw [hlines, hpass, pass_blank, List.append_assoc]

private theorem dropEmptyEnds_append (hw : Filled written) (hl : Begun lines) :
    dropEmptyEnds (written ++ [[]] ++ lines) = written ++ [] :: dropEmptyEnds lines := by
  obtain ⟨line, rest, rfl⟩ := List.exists_cons_of_ne_nil hl.ne_nil
  have hline : line.isEmpty = false := by simpa using hl.first
  rw [dropEmptyEnds_of_first ((hw.append [[]]).append _).first, dropEmptyEnds_of_first hl.first,
    Text.rdropWhile_append_cons hline, ← List.nil_append (line :: rest),
    Text.rdropWhile_append_cons hline]
  simp

theorem Begun.dropEmptyEnds (h : Begun lines) : Begun (Prose.dropEmptyEnds lines) := by
  obtain ⟨line, rest, rfl⟩ := List.exists_cons_of_ne_nil h.ne_nil
  have hline : line.isEmpty = false := by simpa using h.first
  rw [dropEmptyEnds_of_first h.first, ← List.nil_append (line :: rest),
    Text.rdropWhile_append_cons hline]
  exact ⟨by simp, h.first⟩

private theorem Begun.unlines_ne_nil (h : Begun lines) : Text.unlines lines ≠ [] := by
  obtain ⟨line, rest, rfl⟩ := List.exists_cons_of_ne_nil h.ne_nil
  have hline : line ≠ [] := by simpa using h.first
  intro hnil
  have hpart : line <:+: Text.unlines (line :: rest) := Text.infix_join _ List.mem_cons_self
  rw [hnil, List.infix_nil] at hpart
  exact hline hpart

/-- Texts on paragraphs of their own, as far as they are not empty. -/
def paragraphs (ts : List Text) : Text :=
  Text.join "\n\n".toList (ts.filter fun t => !t.isEmpty)

theorem paragraphs_empty_left (t : Text) : paragraphs [[], t] = t := by
  cases t <;> rfl

theorem paragraphs_empty_right (t : Text) : paragraphs [t, []] = t := by
  cases t <;> rfl

private theorem paragraphs_pair {t u : Text} (ht : t ≠ []) (hu : u ≠ []) :
    paragraphs [t, u] = t ++ "\n\n".toList ++ u := by
  simp [paragraphs, ht, hu, Text.join]

/-- A blank line between two texts keeps their normal forms apart, when the first does not end inside
of code. -/
theorem normalize_append {a : Text} (h : endsInCode a = false) (b : Text) :
    normalize (a ++ "\n\n".toList ++ b) = paragraphs [normalize a, normalize b] := by
  obtain ⟨written, hended, ha, hpass⟩ := exists_ended h
  have hab := hpass b
  cases hended with
  | nothing =>
    have hnone : normalize a = [] := ha
    rw [hnone, paragraphs_empty_left, normalize, hab]
    rfl
  | @blank front hfront =>
    rw [dropEmptyEnds_blank hfront.first, hfront.dropEmptyEnds] at ha
    by_cases hb : pass (.text false []) (Text.lines b) = []
    · have hnone : normalize b = [] := by rw [normalize, hb]; rfl
      rw [hnone, paragraphs_empty_right, normalize, hab, hb, List.append_nil,
        dropEmptyEnds_blank hfront.first, hfront.dropEmptyEnds, ha]
    · have hbegun : Begun (pass (.text false []) (Text.lines b)) := ⟨hb, first_pass _⟩
      have hback := hbegun.dropEmptyEnds
      have hne : normalize a ≠ [] := by
        rw [ha]
        exact hfront.unlines_ne_nil
      have hne' : normalize b ≠ [] := hback.unlines_ne_nil
      rw [paragraphs_pair hne hne', normalize, hab, dropEmptyEnds_append hfront hbegun,
        Text.unlines, Text.join_append _ hfront.ne_nil (by simp), Text.join_cons hback.ne_nil, ha]
      simp [Text.unlines, normalize]

private theorem paragraphs_ne_nil {t : Text} {ts : List Text} (hm : t ∈ ts) (ht : t ≠ []) :
    paragraphs ts ≠ [] := by
  intro hnil
  have hpart : t <:+: paragraphs ts :=
    Text.infix_join _ (List.mem_filter.mpr ⟨hm, by simpa using ht⟩)
  rw [hnil, List.infix_nil] at hpart
  exact ht hpart

private theorem paragraphs_cons (t : Text) (ts : List Text) :
    paragraphs (t :: ts) = paragraphs [t, paragraphs ts] := by
  by_cases ht : t = []
  · subst ht
    rw [paragraphs_empty_left]
    rfl
  · have hfilter : (t :: ts).filter (fun t => !t.isEmpty) = t :: ts.filter fun t => !t.isEmpty :=
      List.filter_cons_of_pos (by simpa using ht)
    cases hrest : ts.filter fun t => !t.isEmpty with
    | nil =>
      have hnone : paragraphs ts = [] := by rw [paragraphs, hrest]; rfl
      rw [hnone, paragraphs_empty_right, paragraphs, hfilter, hrest]
      rfl
    | cons u us =>
      have hu : u ∈ ts.filter fun t => !t.isEmpty := hrest ▸ List.mem_cons_self
      obtain ⟨hm, hne⟩ := List.mem_filter.mp hu
      rw [paragraphs_pair ht (paragraphs_ne_nil hm (by simpa using hne)), paragraphs, hfilter, hrest,
        Text.join_cons (by simp), paragraphs, hrest]

/-- Texts with blank lines between them have their normal forms on paragraphs of their own, when none
but the last ends inside of code. -/
theorem normalize_join {ts : List Text} (h : ∀ t ∈ ts.dropLast, endsInCode t = false) :
    normalize (Text.join "\n\n".toList ts) = paragraphs (ts.map normalize) := by
  induction ts with
  | nil => rfl
  | cons t ts ih =>
    by_cases hts : ts = []
    · subst hts
      exact (paragraphs_empty_right (normalize t)).symm.trans (paragraphs_cons (normalize t) []).symm
    · rw [List.dropLast_cons_of_ne_nil hts, List.forall_mem_cons] at h
      rw [Text.join_cons hts, normalize_append h.1, ih h.2, List.map_cons, ← paragraphs_cons]

end ApiPages.Prose
