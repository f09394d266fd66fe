import ApiPages.Proofs.Signature.Expansion
import ApiPages.Proofs.Signature.Nested

/-! What the expansion of markers makes of a text: it has no markers of one or two backticks, so that
another expansion finds nothing to do, and its brackets are nested as they were. -/
namespace ApiPages.Signature

open Marker (ticks? EndsDigits read?_eq_some_iff)

/-- Somewhere in the text stand so many backticks in a row, and no more, with a decimal digit directly
behind them. -/
def HasMarker (ticks : Nat) (t : Text) : Prop :=
  ∃ front digit back, t = front ++ (List.replicate ticks '`' ++ digit :: back) ∧
    front.getLast? ≠ some '`' ∧ Text.isDigit digit = true

namespace Marker

/-- A marker is read where backticks stand before a decimal digit. -/
theorem ticks?_eq_some_iff {t : Text} {n : Nat} :
    ticks? t = some n ↔ 0 < n ∧ ∃ digit back, t = List.replicate n '`' ++ digit :: back ∧
      Text.isDigit digit = true := by
  rw [ticks?, Option.map_eq_some_iff]
  constructor
  · rintro ⟨m, hread, rfl⟩
    obtain ⟨hm, rest, rfl, -⟩ := read?_eq_some_iff.mp hread
    obtain ⟨digit, more, hdigits⟩ := List.exists_cons_of_ne_nil hm.digits
    refine ⟨hm.ticks, digit, more ++ rest, ?_, hm.decimal digit (hdigits ▸ List.mem_cons_self)⟩
    rw [text, hdigits, List.append_assoc, List.cons_append]
  · rintro ⟨hn, digit, back, rfl, hdigit⟩
    have hdecimal : ∀ c ∈ digit :: back.takeWhile Text.isDigit, Text.isDigit c = true :=
      List.forall_mem_cons.mpr ⟨hdigit, fun c hc => List.mem_takeWhile_imp hc⟩
    have hends : EndsDigits (back.dropWhile Text.isDigit) := by
      intro c hc
      have hnot := List.head?_dropWhile_not Text.isDigit back
      rw [Option.mem_def.mp hc] at hnot
      simpa using hnot
    refine ⟨⟨n, digit :: back.takeWhile Text.isDigit⟩, read?_eq_some_iff.mpr
      ⟨⟨hn, List.cons_ne_nil _ _, hdecimal⟩, back.dropWhile Text.isDigit, ?_, hends⟩, rfl⟩
    rw [text, List.append_assoc, List.cons_append, List.takeWhile_append_dropWhile]

end Marker

/-- The markers of a text are those that its ends begin with, where no backtick stands before. -/
theorem markersSatisfy_iff {P : Option Char → Nat → Prop} {before : Option Char} {t : Text} :
    MarkersSatisfy P before t ↔ ∀ front rest, t = front ++ rest → front.getLast?.or before ≠ some '`' →
      ∀ n ∈ ticks? rest, P (front.getLast?.or before) n := by
  induction t generalizing before with
  | nil =>
    refine iff_of_true trivial fun front rest hsplit _ n hn => ?_
    rw [(List.append_eq_nil_iff.mp hsplit.symm).2] at hn
    cases hn
  | cons c cs ih =>
    rw [MarkersSatisfy, ih]
    constructor
    · rintro ⟨hfirst, hlater⟩ front rest hsplit hnot n hn
      cases front with
      | nil =>
        rw [List.nil_append] at hsplit
        exact hfirst hnot n (hsplit ▸ hn)
      | cons d ds =>
        rw [List.cons_append, List.cons.injEq] at hsplit
        obtain ⟨rfl, rfl⟩ := hsplit
        rw [getLast?_cons_or] at hnot ⊢
        exact hlater ds rest rfl hnot n hn
    · intro h
      refine ⟨fun hnot n hn => h [] (c :: cs) rfl hnot n hn, fun front rest hsplit hnot n hn => ?_⟩
      have hfront := h (c :: front) rest (by rw [hsplit, List.cons_append])
      rw [getLast?_cons_or] at hfront
      exact hfront hnot n hn

/-- Expanded is a text without markers of one or two backticks. -/
theorem isExpanded_iff {t : Text} : IsExpanded t ↔ ¬ HasMarker 1 t ∧ ¬ HasMarker 2 t := by
  rw [IsExpanded, markersSatisfy_iff]
  simp only [Option.or_none]
  constructor
  · intro h
    have hlong {n : Nat} (hn : 0 < n) : HasMarker n t → 2 < n := by
      rintro ⟨front, digit, back, hsplit, hnot, hdigit⟩
      exact h front _ hsplit hnot n (Marker.ticks?_eq_some_iff.mpr ⟨hn, digit, back, rfl, hdigit⟩)
    exact ⟨fun hone => absurd (hlong Nat.one_pos hone) (by decide),
      fun htwo => absurd (hlong Nat.two_pos htwo) (by decide)⟩
  · rintro ⟨hone, htwo⟩ front rest hsplit hnot n hn
    obtain ⟨hpositive, digit, back, hrest, hdigit⟩ := Marker.ticks?_eq_some_iff.mp hn
    rw [hrest] at hsplit
    have hmarker : HasMarker n t := ⟨front, digit, back, hsplit, hnot, hdigit⟩
    have hnotOne : n ≠ 1 := fun he => hone (he ▸ hmarker)
    have hnotTwo : n ≠ 2 := fun he => htwo (he ▸ hmarker)
    omega

/-- The expansion leaves no markers of one or two backticks, and makes none, so that it can be done again
without a change. A text without such markers is left alone, and no other. Brackets of whatever kinds are
well nested in what comes out exactly if they were before. -/
theorem expansion_leaves_no_short_markers (t : Text) :
    (¬ HasMarker 1 (expandArity t) ∧ ¬ HasMarker 2 (expandArity t)) ∧
      expandArity (expandArity t) = expandArity t ∧
      (expandArity t = t ↔ ¬ HasMarker 1 t ∧ ¬ HasMarker 2 t) ∧
      ∀ openers, Nested openers (expandArity t) ↔ Nested openers t := by
  have hexpanded := isExpanded_expandArity t
  refine ⟨isExpanded_iff.mp hexpanded, expandArity_of_isExpanded hexpanded, ⟨fun h => ?_, fun h => ?_⟩,
    fun openers => nested_expandArity_iff⟩
  · rw [h] at hexpanded
    exact isExpanded_iff.mp hexpanded
  · exact expandArity_of_isExpanded (isExpanded_iff.mpr h)

example : expandArity "`0`1 a`1``2< ```3".toList = "T1<T1> a<T1>< ```3".toList := by decide +kernel

end ApiPages.Signature
