import ApiPages.Order
import ApiPages.Text.Basic
import Mathlib.Data.List.Basic

/-! Sorting puts elements in order, and code point order is one to sort by. -/
namespace ApiPages

private theorem insertBy_congr {α : Type} {le le' : α → α → Bool} {x : α} {xs : List α}
    (h : ∀ y ∈ xs, le x y = le' x y) : insertBy le x xs = insertBy le' x xs := by
  induction xs with
  | nil => rfl
  | cons y ys ih =>
    obtain ⟨hy, hys⟩ := List.forall_mem_cons.mp h
    rw [insertBy, insertBy, hy, ih hys]

/-- Orders that agree on the elements of a list sort it alike. -/
theorem sortBy_congr {α : Type} {le le' : α → α → Bool} {xs : List α}
    (h : ∀ x ∈ xs, ∀ y ∈ xs, le x y = le' x y) : sortBy le xs = sortBy le' xs := by
  induction xs with
  | nil => rfl
  | cons x xs ih =>
    have hrest : sortBy le xs = sortBy le' xs := ih fun y hy z hz =>
      h y (List.mem_cons_of_mem x hy) z (List.mem_cons_of_mem x hz)
    rw [sortBy, sortBy, hrest]
    refine insertBy_congr fun y hy => h x List.mem_cons_self y (List.mem_cons_of_mem x ?_)
    exact (sortBy_perm le' xs).mem_iff.mp hy

section Sorting

variable {α : Type} {le : α → α → Bool} (total : ∀ a b, le a b = true ∨ le b a = true)
  (trans : ∀ a b c, le a b = true → le b c = true → le a c = true)

include total trans

/-- Putting an element into a sorted list keeps it sorted. -/
theorem pairwise_insertBy (x : α) {xs : List α}
    (h : xs.Pairwise fun a b => le a b = true) :
    (insertBy le x xs).Pairwise fun a b => le a b = true := by
  induction xs with
  | nil => exact List.pairwise_singleton _ x
  | cons y ys ih =>
    obtain ⟨hy, hys⟩ := List.pairwise_cons.mp h
    rw [insertBy]
    by_cases hxy : le x y = true
    · rw [if_pos hxy]
      refine List.pairwise_cons.mpr ⟨fun z hz => ?_, h⟩
      rcases List.mem_cons.mp hz with rfl | hz
      · exact hxy
      · exact trans x y z hxy (hy z hz)
    · rw [if_neg hxy]
      refine List.pairwise_cons.mpr ⟨fun z hz => ?_, ih hys⟩
      rcases List.mem_cons.mp ((insertBy_perm le x ys).mem_iff.mp hz) with rfl | hz
      · exact (total z y).resolve_left hxy
      · exact hy z hz

theorem pairwise_sortBy (xs : List α) :
    (sortBy le xs).Pairwise fun a b => le a b = true := by
  induction xs with
  | nil => exact List.Pairwise.nil
  | cons x xs ih => exact pairwise_insertBy total trans x ih

end Sorting

namespace Text

theorem le_total (a b : Text) : le a b = true ∨ le b a = true := by
  induction a generalizing b with
  | nil => exact Or.inl rfl
  | cons c cs ih =>
    cases b with
    | nil => exact Or.inr rfl
    | cons d ds =>
      simp only [le, Bool.or_eq_true, Bool.and_eq_true, decide_eq_true_eq, beq_iff_eq]
      by_cases he : c = d
      · exact (ih ds).imp (fun h => Or.inr ⟨he, h⟩) (fun h => Or.inr ⟨he.symm, h⟩)
      · exact (UInt32.lt_or_lt_of_ne fun hv => he (Char.ext hv)).imp Or.inl Or.inl

theorem le_trans (a b c : Text) (hab : le a b = true) (hbc : le b c = true) : le a c = true := by
  induction a generalizing b c with
  | nil => rfl
  | cons x xs ih =>
    cases b with
    | nil => cases hab
    | cons y ys =>
      cases c with
      | nil => cases hbc
      | cons z zs =>
        simp only [le, Bool.or_eq_true, Bool.and_eq_true, decide_eq_true_eq, beq_iff_eq] at *
        rcases hab with hxy | ⟨rfl, hxy⟩
        · rcases hbc with hyz | ⟨rfl, _⟩
          · exact Or.inl (UInt32.lt_trans hxy hyz)
          · exact Or.inl hxy
        · rcases hbc with hyz | ⟨rfl, hyz⟩
          · exact Or.inl hyz
          · exact Or.inr ⟨rfl, ih ys zs hxy hyz⟩

theorem le_antisymm {a b : Text} (hab : le a b = true) (hba : le b a = true) : a = b := by
  induction a generalizing b with
  | nil =>
    cases b with
    | nil => rfl
    | cons y ys => cases hba
  | cons x xs ih =>
    cases b with
    | nil => cases hab
    | cons y ys =>
      simp only [le, Bool.or_eq_true, Bool.and_eq_true, decide_eq_true_eq, beq_iff_eq] at hab hba
      rcases hab with hxy | ⟨rfl, hxy⟩
      · rcases hba with hyx | ⟨rfl, _⟩
        · exact absurd (UInt32.lt_trans hxy hyx) (UInt32.lt_irrefl _)
        · exact absurd hxy (UInt32.lt_irrefl _)
      · rcases hba with hyx | ⟨_, hyx⟩
        · exact absurd hyx (UInt32.lt_irrefl _)
        · rw [ih hxy hyx]

/-- The order of texts is the lexicographic one of their characters. -/
theorem lt_of_le_of_ne {a b : Text} (h : le a b = true) (hne : a ≠ b) : a < b := by
  induction a generalizing b with
  | nil =>
    cases b with
    | nil => exact absurd rfl hne
    | cons y ys => exact List.nil_lt_cons y ys
  | cons x xs ih =>
    cases b with
    | nil => cases h
    | cons y ys =>
      simp only [le, Bool.or_eq_true, Bool.and_eq_true, decide_eq_true_eq, beq_iff_eq] at h
      rcases h with hxy | ⟨rfl, hxs⟩
      · exact List.cons_lt_cons_iff.mpr (Or.inl hxy)
      · exact List.cons_lt_cons_iff.mpr (Or.inr ⟨rfl, ih hxs fun he => hne (he ▸ rfl)⟩)

end Text
end ApiPages
