import ApiPages.Proofs.Text.Lines
import ApiPages.Proofs.Text.Runs
import ApiPages.Proofs.Text.Trim

/-! Collapsed texts: putting the words of a text together with spaces is the same as replacing the
runs of blanks by spaces and trimming. -/
namespace ApiPages.Text

private theorem ne_nil_of_mem_wordsFrom {t word : Text} {w : Text} (h : w ∈ wordsFrom t word) : w ≠ [] := by
  induction t generalizing word with
  | nil =>
    cases word with
    | nil => cases h
    | cons c cs =>
      have hw : w = (c :: cs).reverse := List.mem_singleton.mp h
      simp [hw]
  | cons c cs ih =>
    rw [wordsFrom] at h
    split at h
    · split at h
      · exact ih h
      · next hword =>
        rcases List.mem_cons.mp h with rfl | h
        · simpa using hword
        · exact ih h
    · exact ih h

/-- Where the run before goes on, blanks at the front are dropped. -/
theorem replaceRunsFrom_true (p : Char → Bool) (image : Char) (t : Text) :
    replaceRunsFrom p image true t = replaceRuns p image (t.dropWhile p) := by
  induction t with
  | nil => rfl
  | cons c cs ih =>
    by_cases hc : p c = true
    · rw [replaceRunsFrom, if_pos hc, if_pos rfl, ih, List.dropWhile_cons_of_pos hc]
    · rw [List.dropWhile_cons_of_neg hc, replaceRuns, replaceRunsFrom, replaceRunsFrom, if_neg hc,
        if_neg hc]

private theorem trimEnd_append_cons {c : Char} (hc : isBlank c = false) (before after : Text) :
    trimEnd (before ++ c :: after) = before ++ c :: trimEnd after :=
  dropEndWhile_append_cons hc before after

/-- The word that is being read is followed by a space exactly when another word comes. -/
private theorem trimEnd_append_space {word : Text} (hne : word ≠ [])
    (hword : ∀ c ∈ word, isBlank c = false) (t : Text) :
    trimEnd (word ++ ' ' :: t) = if trimEnd t = [] then word else word ++ ' ' :: trimEnd t := by
  have hspace : trimEnd (' ' :: t) = if trimEnd t = [] then [] else ' ' :: trimEnd t := by
    have hblank : isBlank ' ' = true := by decide
    have hnone : trimEnd t = [] ↔ (t.reverse.dropWhile isBlank).isEmpty = true := by
      rw [List.isEmpty_iff]
      exact List.reverse_eq_nil_iff
    rw [trimEnd, dropEndWhile, List.reverse_cons, List.dropWhile_append]
    split
    · next h =>
      rw [if_pos (hnone.mpr h), List.dropWhile_cons_of_pos hblank]
      rfl
    · next h =>
      rw [if_neg (mt hnone.mp h), List.reverse_append]
      rfl
  obtain ⟨front, c, rfl⟩ := (List.eq_nil_or_concat' word).resolve_left hne
  have hc : isBlank c = false := hword c (by simp)
  rw [List.append_assoc, List.singleton_append, trimEnd_append_cons hc, hspace]
  split <;> simp

/-- Reading on from a place, with the word so far. -/
private theorem join_wordsFrom {t word : Text} (hword : ∀ c ∈ word, isBlank c = false) :
    join [' '] (wordsFrom t word) =
      trimEnd (word.reverse ++ replaceRunsFrom isBlank ' ' word.isEmpty t) := by
  induction t generalizing word with
  | nil =>
    cases word with
    | nil => rfl
    | cons c cs =>
      have hc := trimEnd_append_cons (hword c List.mem_cons_self) cs.reverse []
      rw [replaceRunsFrom, List.append_nil, List.reverse_cons, hc]
      exact List.reverse_cons
  | cons d ds ih =>
    have hnone : ∀ c ∈ ([] : Text), isBlank c = false := fun c hc => absurd hc List.not_mem_nil
    rw [wordsFrom, replaceRunsFrom]
    by_cases hd : isBlank d = true
    · rw [if_pos hd, if_pos hd]
      by_cases hw : word = []
      · subst hw
        exact ih hnone
      · have hrest := ih hnone
        rw [List.isEmpty_nil, List.reverse_nil, List.nil_append] at hrest
        have hempty : word.isEmpty = false := by simpa using hw
        rw [hempty, if_neg Bool.false_ne_true, if_neg Bool.false_ne_true,
          trimEnd_append_space (by simpa using hw) (by simpa using hword), ← hrest]
        by_cases hnil : wordsFrom ds [] = []
        · rw [hnil]
          rfl
        · have hjoin : join [' '] (wordsFrom ds []) ≠ [] := by
            obtain ⟨w, hw⟩ := List.exists_mem_of_ne_nil _ hnil
            intro hj
            have hpart := infix_join [' '] hw
            rw [hj, List.infix_nil] at hpart
            exact ne_nil_of_mem_wordsFrom hw hpart
          rw [if_neg hjoin, join_cons hnil, List.append_assoc, List.singleton_append]
    · have hd' : isBlank d = false := Bool.eq_false_iff.mpr hd
      rw [if_neg hd, if_neg hd, ih (List.forall_mem_cons.mpr ⟨hd', hword⟩), List.reverse_cons,
        List.append_assoc, List.singleton_append, List.isEmpty_cons]

/-- The words with single spaces between them are what is left of the text when every run of blanks is a
space and none stands at an end. -/
theorem collapse_eq (t : Text) : collapse t = trim (replaceRuns isBlank ' ' t) := by
  have hnone : ∀ c ∈ ([] : Text), isBlank c = false := fun c hc => absurd hc List.not_mem_nil
  have hwords := join_wordsFrom (t := t) hnone
  rw [collapse, words, hwords, List.reverse_nil, List.nil_append, List.isEmpty_nil,
    replaceRunsFrom_true, ← dropWhile_replaceRuns (fun _ h => h) (by decide)]
  rfl

theorem isBlank_of_mem_collapse {t : Text} {c : Char} (h : c ∈ collapse t) :
    c = ' ' ∨ isBlank c = false := by
  rw [collapse_eq] at h
  by_cases hc : c = ' '
  · exact Or.inl hc
  · exact Or.inr (not_of_mem_replaceRuns hc (mem_trim h))

theorem lineFeed_not_mem_collapse (t : Text) : '\n' ∉ collapse t := by
  intro h
  rcases isBlank_of_mem_collapse h with he | hf
  · exact absurd he (by decide)
  · exact absurd hf (by decide)

/-- Which blanks stand between the words does not matter. -/
theorem collapse_exchange {old : Char} (hold : isBlank old = true) (t : Text) :
    collapse (exchange old ' ' t) = collapse t := by
  have hruns (inRun : Bool) : replaceRunsFrom isBlank ' ' inRun (exchange old ' ' t) =
      replaceRunsFrom isBlank ' ' inRun t := by
    induction t generalizing inRun with
    | nil => rfl
    | cons c cs ih =>
      have hblank : isBlank (if c = old then ' ' else c) = isBlank c := by
        split
        · next hc =>
          rw [hc, hold]
          decide
        · rfl
      rw [exchange, List.map_cons, replaceRunsFrom, replaceRunsFrom, hblank]
      by_cases hc : isBlank c = true
      · simp only [if_pos hc]
        exact congrArg (fun rest => if inRun = true then rest else ' ' :: rest) (ih true)
      · have hne : c ≠ old := by
          rintro rfl
          exact hc hold
        rw [if_neg hc, if_neg hc, if_neg hne]
        exact congrArg (c :: ·) (ih false)
  rw [collapse_eq, collapse_eq, replaceRuns, hruns, replaceRuns]

/-- Collapsing leaves a text alone that has no other blanks than single spaces inside. -/
theorem collapse_eq_self {t : Text} (hblank : ∀ c ∈ t, isBlank c = true → c = ' ')
    (hsingle : t.IsChain fun c d => c = ' ' → d ≠ ' ')
    (hfirst : ∀ c ∈ t.head?, isBlank c = false) (hlast : ∀ c ∈ t.getLast?, isBlank c = false) :
    collapse t = t := by
  rw [collapse_eq, replaceRuns_eq_self hblank hsingle, trim_eq_self_of_ends hfirst hlast]

end ApiPages.Text
