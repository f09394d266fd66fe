import ApiPages.Proofs.Prose.Blocks
import ApiPages.Proofs.Prose.Paragraphs

/-! The lines inside of fenced code: each is a line of the normal form as it was written, and in the
same order. -/
namespace ApiPages.Prose

/-- The lines that are read inside of code, without the fences that close it. -/
def codeLines : Bool → List Text → List Text
  | _, [] => []
  | inside, line :: lines =>
    if isFenceLine line then codeLines (!inside) lines
    else if inside then line :: codeLines inside lines
    else codeLines inside lines

private theorem codeLines_cons (inside : Bool) (line : Text) (lines : List Text) :
    codeLines inside (line :: lines) =
      (if inside && !isFenceLine line then [line] else []) ++
        codeLines (inside != isFenceLine line) lines := by
  rw [codeLines]
  cases inside <;> cases isFenceLine line <;> rfl

private theorem rdropWhile_append {α : Type} {p : α → Bool} {ys : List α}
    (h : ys.rdropWhile p ≠ []) (xs : List α) :
    (xs ++ ys).rdropWhile p = xs ++ ys.rdropWhile p := by
  have hne : ¬ (ys.reverse.dropWhile p).isEmpty = true := by
    simpa [List.rdropWhile] using h
  rw [List.rdropWhile, List.reverse_append, List.dropWhile_append, if_neg hne,
    List.reverse_append, List.reverse_reverse]
  rfl

private theorem sublist_rdropWhile_append {α : Type} (p : α → Bool) (xs ys : List α) :
    (ys.rdropWhile p).Sublist ((xs ++ ys).rdropWhile p) := by
  by_cases h : ys.rdropWhile p = []
  · rw [h]
    exact List.nil_sublist _
  · rw [rdropWhile_append h]
    exact List.sublist_append_right _ _

/-- Inside of code a fence is still to be written. -/
theorem rdropWhile_pass_code_ne_nil (lines : List Text) :
    (pass .code lines).rdropWhile List.isEmpty ≠ [] := by
  rw [ne_eq, List.rdropWhile_eq_nil_iff]
  intro hall
  induction lines with
  | nil => exact absurd (hall fence List.mem_cons_self) (by decide)
  | cons line lines ih =>
    rw [pass] at hall
    split at hall
    · next hf =>
      have hempty := hall (Text.trim line) List.mem_cons_self
      rw [List.isEmpty_iff.mp hempty] at hf
      cases hf
    · exact ih fun l hl => hall l (List.mem_cons_of_mem _ hl)

/-- What a pass writes holds the lines of code, even when empty lines are dropped at its end. -/
theorem codeLines_sublist (state : State) (lines : List Text) :
    (codeLines state.inCode lines).Sublist ((pass state lines).rdropWhile List.isEmpty) := by
  induction lines generalizing state with
  | nil => exact List.nil_sublist _
  | cons line lines ih =>
    obtain ⟨out, next, hstep, hpass⟩ := exists_step state line
    rw [hpass, codeLines_cons, ← hstep.inCode]
    cases hcopied : state.inCode && !isFenceLine line with
    | false => exact (ih next).trans (sublist_rdropWhile_append List.isEmpty out _)
    | true =>
      cases hstep with
      | copies hf =>
        rw [rdropWhile_append (rdropWhile_pass_code_ne_nil lines)]
        exact (ih .code).cons_cons line
      | closes hf => simp [isFenceLine, hf] at hcopied
      | _ => cases hcopied

/-- The lines of code are lines of the normal form, unchanged and in their order. -/
theorem codeLines_sublist_normalize (t : Text) :
    (codeLines false (Text.lines t)).Sublist (Text.lines (normalize t)) := by
  have hsub := codeLines_sublist (.text false []) (Text.lines t)
  rw [← dropEmptyEnds_of_first (first_pass _)] at hsub
  by_cases hne : dropEmptyEnds (pass (.text false []) (Text.lines t)) = []
  · rw [hne] at hsub
    exact hsub.trans (List.nil_sublist _)
  · rw [lines_normalize hne]
    exact hsub

end ApiPages.Prose
