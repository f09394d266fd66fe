import ApiPages.Proofs.Text.Collapse
import ApiPages.Proofs.Text.Lines
import ApiPages.Proofs.Text.Trim

/-! The visible characters of a text: all but the blank ones. Trimming, cutting into lines and
putting together again move only blank characters. -/
namespace ApiPages.Text

/-- The characters of a text that are not blank, in their order. -/
def visible (t : Text) : Text := t.filter fun c => !isBlank c

theorem visible_append (t u : Text) : visible (t ++ u) = visible t ++ visible u :=
  List.filter_append t u

theorem visible_cons_blank {c : Char} (h : isBlank c = true) (t : Text) :
    visible (c :: t) = visible t :=
  List.filter_cons_of_neg (by simp [h])

theorem visible_cons {c : Char} (h : isBlank c = false) (t : Text) :
    visible (c :: t) = c :: visible t :=
  List.filter_cons_of_pos (by simp [h])

theorem visible_eq_nil_iff {t : Text} : visible t = [] ↔ ∀ c ∈ t, isBlank c = true := by
  simp [visible, List.filter_eq_nil_iff]

private theorem visible_eq_flatMap (t : Text) : visible t = t.flatMap fun c => visible [c] := by
  induction t with
  | nil => rfl
  | cons c cs ih => rw [List.flatMap_cons, ← ih, ← visible_append, List.singleton_append]

theorem visible_trim (t : Text) : visible (trim t) = visible t := by
  rw [visible_eq_flatMap, visible_eq_flatMap t]
  exact flatMap_dropEnds (fun c hc => visible_cons_blank hc []) t

/-- Nothing is left by trimming exactly when nothing was visible. -/
theorem trim_eq_nil_iff {t : Text} : trim t = [] ↔ visible t = [] := by
  constructor
  · intro h
    rw [← visible_trim, h]
    rfl
  · intro h
    have hd : t.dropWhile isBlank = [] :=
      List.dropWhile_eq_nil_iff.mpr (visible_eq_nil_iff.mp h)
    rw [trim, trimBoth, hd]
    rfl

private theorem visible_replaceRunsFrom {p : Char → Bool} {image : Char}
    (hp : ∀ c, p c = true → isBlank c = true) (himage : isBlank image = true) (inRun : Bool)
    (t : Text) : visible (replaceRunsFrom p image inRun t) = visible t := by
  induction t generalizing inRun with
  | nil => rfl
  | cons c cs ih =>
    rw [replaceRunsFrom]
    by_cases hc : p c = true
    · rw [if_pos hc, visible_cons_blank (hp c hc)]
      cases inRun with
      | true => exact ih true
      | false =>
        rw [if_neg Bool.false_ne_true, visible_cons_blank himage]
        exact ih true
    · rw [if_neg hc]
      cases hb : isBlank c with
      | true => rw [visible_cons_blank hb, visible_cons_blank hb, ih]
      | false => rw [visible_cons hb, visible_cons hb, ih]

/-- Runs of blank characters that are replaced by one leave the visible characters alone. -/
theorem visible_replaceRuns {p : Char → Bool} {image : Char}
    (hp : ∀ c, p c = true → isBlank c = true) (himage : isBlank image = true) (t : Text) :
    visible (replaceRuns p image t) = visible t :=
  visible_replaceRunsFrom hp himage false t

theorem visible_collapse (t : Text) : visible (collapse t) = visible t := by
  rw [collapse_eq, visible_trim, visible_replaceRuns (fun _ h => h) (by decide)]

/-- A blank separator is not seen in a joined text. -/
theorem visible_join {sep : Text} (h : visible sep = []) (ts : List Text) :
    visible (join sep ts) = ts.flatMap visible := by
  induction ts with
  | nil => rfl
  | cons t ts ih =>
    by_cases ht : ts = []
    · subst ht
      rw [List.flatMap_singleton]
      rfl
    · rw [join_cons ht, visible_append, visible_append, h, List.append_nil, ih, List.flatMap_cons]

theorem visible_unlines (ls : List Text) : visible (unlines ls) = ls.flatMap visible :=
  visible_join (by decide) ls

theorem flatMap_visible_lines (t : Text) : (lines t).flatMap visible = visible t := by
  rw [← visible_unlines, unlines, lines, join_splitOn]

end ApiPages.Text
