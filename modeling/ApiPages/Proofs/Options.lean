import ApiPages.Options
import ApiPages.Proofs.Text.Digit
import ApiPages.Proofs.Text.Trim

/-! What holds of the options that were made from given values. -/
namespace ApiPages

/-- A code point that is not a blank is shown without blanks. -/
private theorem CodePoint.isBlank_of_mem_escaped {point : CodePoint}
    (h : point.char?.any Text.isBlank = false) : ∀ c ∈ point.escaped, Text.isBlank c = false := by
  cases point with
  | char c => exact List.forall_mem_singleton.mpr h
  | half i =>
    have hdigits : ∀ d < 16, Text.isBlank d.digitChar = false := by decide
    refine List.forall_mem_cons.mpr ⟨by decide, List.forall_mem_cons.mpr ⟨by decide, ?_⟩⟩
    exact Text.forall_mem_hexPadded hdigits 4 _

private theorem CodePoint.escaped_ne_nil (point : CodePoint) : point.escaped ≠ [] := by
  cases point <;> exact List.cons_ne_nil _ _

/-- A trimmed text with halves of pairs ends in one of them, or in a character that is no blank. -/
private theorem Loose.exists_points_trimBoth (t : Loose) :
    ∃ before last, (t.trimBoth Text.isBlank).points = before ++ [last] ∧
      last.char?.any Text.isBlank = false := by
  let isBlank : CodePoint → Bool := fun point => point.char?.any Text.isBlank
  let kept := t.before.dropWhile Text.isBlank
  have hpoints : (t.trimBoth Text.isBlank).points =
      kept.map .char ++ .half t.half :: t.behind.rdropWhile isBlank := rfl
  rw [hpoints]
  rcases List.eq_nil_or_concat (t.behind.rdropWhile isBlank) with hnil | ⟨before, last, hlast⟩
  · exact ⟨kept.map .char, .half t.half, by rw [hnil], rfl⟩
  · have hne : t.behind.rdropWhile isBlank ≠ [] := by simp [hlast]
    have hkept := List.rdropWhile_last_not isBlank t.behind hne
    simp only [hlast, List.concat_eq_append, List.getLast_concat] at hkept
    refine ⟨kept.map .char ++ .half t.half :: before, last, ?_, Bool.eq_false_iff.mpr hkept⟩
    rw [hlast, List.concat_eq_append, List.append_assoc, List.cons_append]

/-- A trimmed text has no blank at its end, however halves of pairs are shown. -/
theorem Wording.trimEnd_escaped_trimBoth (w : Wording) :
    Text.trimEnd (w.trimBoth Text.isBlank).escaped = (w.trimBoth Text.isBlank).escaped := by
  cases w with
  | text t => exact Text.trimEnd_trim t
  | loose t =>
    obtain ⟨before, last, hpoints, hlast⟩ := t.exists_points_trimBoth
    show Text.trimEnd ((t.trimBoth Text.isBlank).points.flatMap CodePoint.escaped) =
      (t.trimBoth Text.isBlank).points.flatMap CodePoint.escaped
    rw [hpoints, List.flatMap_append, List.flatMap_singleton]
    exact Text.trimEnd_append_eq_self last.escaped_ne_nil
      (CodePoint.isBlank_of_mem_escaped hlast) _

private theorem exists_of_bind_eq_ok {ε α β : Type} {x : Except ε α} {f : α → Except ε β} {b : β}
    (h : x >>= f = .ok b) : ∃ a, f a = .ok b := by
  cases x with
  | error e => cases h
  | ok a => exact ⟨a, h⟩

/-- Options that were made from given values have a language without blanks at its end. -/
theorem Options.trimEnd_language {style root language trims : Value} {options : Options}
    (h : Options.of style root language trims = .ok options) :
    Text.trimEnd options.language = options.language := by
  unfold Options.of at h
  extract_lets rest at h
  have hrest : ∃ fileNameStyle, rest fileNameStyle = .ok options := by
    split at h
    · split at h
      · exact ⟨_, h⟩
      · cases h
    · cases h
  obtain ⟨fileNameStyle, h⟩ := hrest
  obtain ⟨_, h⟩ := exists_of_bind_eq_ok h
  obtain ⟨given, h⟩ := exists_of_bind_eq_ok h
  cases h
  show Text.trimEnd (Wording.escaped (if _ then _ else _)) = Wording.escaped (if _ then _ else _)
  split
  · show Text.trimEnd defaultLanguage = defaultLanguage
    decide
  · exact given.trimEnd_escaped_trimBoth

end ApiPages
