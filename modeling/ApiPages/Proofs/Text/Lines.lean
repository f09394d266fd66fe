import ApiPages.Text.Basic
import Mathlib.Data.List.Basic

/-! Lines and pieces: texts put together with separators, and taken apart again. Both ways are those
of the library's lists. -/
namespace ApiPages.Text

private theorem join_eq_intercalate (sep : Text) (ts : List Text) : join sep ts = sep.intercalate ts := by
  induction ts with
  | nil => rfl
  | cons t ts ih =>
    cases ts with
    | nil => simp [join]
    | cons u us => rw [join_cons_cons, ih, List.intercalate_cons_cons]

private theorem splitOn_eq (sep : Char) (t : Text) : splitOn sep t = List.splitOn sep t := by
  induction t with
  | nil => simp [splitOn]
  | cons c cs ih =>
    rw [splitOn, List.splitOn_cons_eq_if_modifyHead, ih]
    by_cases h : c = sep
    · simp [h]
    · simp only [h, if_false, beq_iff_eq]
      cases hs : List.splitOn sep cs with
      | nil => exact absurd hs (List.splitOn_ne_nil sep cs)
      | cons p ps => rfl

theorem join_cons {sep : Text} {ts : List Text} (h : ts ≠ []) (t : Text) :
    join sep (t :: ts) = t ++ sep ++ join sep ts := by
  rw [join_eq_intercalate, join_eq_intercalate, List.intercalate_cons_of_ne_nil h]

theorem join_append (sep : Text) {ts us : List Text} (ht : ts ≠ []) (hu : us ≠ []) :
    join sep (ts ++ us) = join sep ts ++ sep ++ join sep us := by
  induction ts with
  | nil => exact absurd rfl ht
  | cons t ts ih =>
    by_cases hts : ts = []
    · subst hts
      exact join_cons hu t
    · rw [List.cons_append, join_cons (by simp [hts]), ih hts, join_cons hts]
      simp

/-- Every one of the texts is a part of what they are put together to. -/
theorem infix_join (sep : Text) {t : Text} {ts : List Text} (h : t ∈ ts) : t <:+: join sep ts := by
  induction ts with
  | nil => cases h
  | cons u us ih =>
    by_cases hu : us = []
    · subst hu
      rw [List.mem_singleton.mp h]
      exact List.infix_rfl
    · rw [join_cons hu]
      rcases List.mem_cons.mp h with rfl | h
      · exact ⟨[], sep ++ join sep us, by simp⟩
      · exact (ih h).trans (List.suffix_append _ _).isInfix

theorem mem_join {sep : Text} {ts : List Text} {c : Char} (h : c ∈ join sep ts) :
    c ∈ sep ∨ ∃ t ∈ ts, c ∈ t := by
  induction ts with
  | nil => cases h
  | cons u us ih =>
    by_cases hu : us = []
    · subst hu
      exact Or.inr ⟨u, List.mem_singleton_self u, h⟩
    · rw [join_cons hu, List.mem_append, List.mem_append] at h
      rcases h with (h | h) | h
      · exact Or.inr ⟨u, List.mem_cons_self, h⟩
      · exact Or.inl h
      · exact (ih h).imp_right fun ⟨t, ht, hc⟩ => ⟨t, List.mem_cons_of_mem u ht, hc⟩

theorem splitOn_of_not_mem {sep : Char} {t : Text} (h : sep ∉ t) : splitOn sep t = [t] := by
  rw [splitOn_eq, List.splitOn_eq_singleton h]

private theorem splitOn_append (sep : Char) (t u : Text) :
    splitOn sep (t ++ sep :: u) = splitOn sep t ++ splitOn sep u := by
  rw [splitOn_eq, splitOn_eq, splitOn_eq, List.splitOn_append_cons_self]

private theorem not_mem_of_mem_splitOn {sep : Char} {t piece : Text} (h : piece ∈ splitOn sep t) :
    sep ∉ piece := by
  induction t generalizing piece with
  | nil =>
    rw [splitOn, List.mem_singleton] at h
    subst h
    exact List.not_mem_nil
  | cons c cs ih =>
    rw [splitOn] at h
    by_cases hc : c = sep
    · rw [if_pos hc] at h
      rcases List.mem_cons.mp h with rfl | h
      · exact List.not_mem_nil
      · exact ih h
    · rw [if_neg hc] at h
      cases hs : splitOn sep cs with
      | nil => exact absurd hs (splitOn_ne_nil sep cs)
      | cons p ps =>
        rw [hs] at h ih
        rcases List.mem_cons.mp h with rfl | h
        · intro hm
          rcases List.mem_cons.mp hm with he | hm
          · exact hc he.symm
          · exact ih List.mem_cons_self hm
        · exact ih (List.mem_cons_of_mem p h)

theorem lineFeed_not_mem_of_mem_lines {t line : Text} (h : line ∈ lines t) : '\n' ∉ line :=
  not_mem_of_mem_splitOn h

theorem lines_append (t u : Text) : lines (t ++ '\n' :: u) = lines t ++ lines u :=
  splitOn_append '\n' t u

/-- Lines that were put together are found again. -/
theorem lines_unlines {ls : List Text} (h : ∀ l ∈ ls, '\n' ∉ l) (hne : ls ≠ []) :
    lines (unlines ls) = ls := by
  rw [lines, unlines, splitOn_eq, join_eq_intercalate]
  exact List.splitOn_intercalate '\n' h hne

theorem length_lines (t : Text) : (lines t).length = t.count '\n' + 1 := by
  unfold lines
  induction t with
  | nil => rfl
  | cons c cs ih =>
    rw [splitOn]
    by_cases hc : c = '\n'
    · rw [if_pos hc, hc, List.length_cons, ih, List.count_cons_self]
    · rw [if_neg hc, List.count_cons_of_ne hc, ← ih]
      cases hs : splitOn '\n' cs with
      | nil => exact absurd hs (splitOn_ne_nil '\n' cs)
      | cons p ps => rfl

/-- What has no line feed stands on one line, whose number is that of the line feeds before. -/
theorem exists_line_of_append {m : Text} (hm : '\n' ∉ m) (a b : Text) :
    ∃ before line after, lines (a ++ m ++ b) = before ++ line :: after ∧
      before.length = a.count '\n' ∧ m <:+: line := by
  -- The line goes back to the last line feed before, and on to the first one behind.
  have hback : ∃ line after, lines (m ++ b) = line :: after ∧ m <+: line := by
    induction m with
    | nil =>
      obtain ⟨line, after, h⟩ := List.exists_cons_of_ne_nil (splitOn_ne_nil '\n' b)
      exact ⟨line, after, h, List.nil_prefix⟩
    | cons c cs ih =>
      rw [List.mem_cons, not_or] at hm
      obtain ⟨line, after, h, hp⟩ := ih hm.2
      refine ⟨c :: line, after, ?_, List.cons_prefix_cons.mpr ⟨rfl, hp⟩⟩
      rw [lines] at h ⊢
      rw [List.cons_append, splitOn, if_neg (Ne.symm hm.1), h]
  induction a with
  | nil =>
    obtain ⟨line, after, h, hp⟩ := hback
    exact ⟨[], line, after, h, rfl, hp.isInfix⟩
  | cons c cs ih =>
    obtain ⟨before, line, after, h, hlength, hpart⟩ := ih
    rw [lines] at h ⊢
    rw [List.cons_append, List.cons_append, splitOn, h]
    by_cases hc : c = '\n'
    · rw [if_pos hc, hc, List.count_cons_self, ← hlength]
      exact ⟨[] :: before, line, after, rfl, rfl, hpart⟩
    · rw [if_neg hc, List.count_cons_of_ne hc, ← hlength]
      cases before with
      | nil => exact ⟨[], c :: line, after, rfl, rfl, hpart.trans (List.suffix_cons c line).isInfix⟩
      | cons first rest => exact ⟨(c :: first) :: rest, line, after, rfl, rfl, hpart⟩

/-- The lines of texts that are put together are their lines, one text after another. -/
theorem lines_unlines_eq_flatMap {ts : List Text} (hne : ts ≠ []) :
    lines (unlines ts) = ts.flatMap lines := by
  induction ts with
  | nil => exact absurd rfl hne
  | cons t ts ih =>
    rw [List.flatMap_cons]
    by_cases hts : ts = []
    · subst hts
      exact (List.append_nil _).symm
    · have hlines : lines (join ['\n'] ts) = ts.flatMap lines := ih hts
      rw [unlines, join_cons hts, List.append_assoc, List.singleton_append, lines_append, hlines]

end ApiPages.Text
