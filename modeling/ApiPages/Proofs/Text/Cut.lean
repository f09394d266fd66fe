import ApiPages.Text.Basic
import Mathlib.Data.List.Basic

/-! Cuts at the first and at the last separator: where they are made, and what they leave. -/
namespace ApiPages.Text

variable {sep : Char}

theorem cutFirst_eq_some_iff {t before after : Text} :
    cutFirst sep t = some (before, after) ↔ t = before ++ sep :: after ∧ sep ∉ before := by
  induction t generalizing before with
  | nil => simp [cutFirst]
  | cons c cs ih =>
    unfold cutFirst
    by_cases h : c = sep
    · subst h
      rw [if_pos rfl]
      cases before with
      | nil => simp
      | cons d ds =>
        simp only [Option.some.injEq, Prod.mk.injEq, List.cons_append, List.cons.injEq]
        constructor
        · rintro ⟨he, _⟩
          cases he
        · rintro ⟨⟨rfl, _⟩, hn⟩
          exact absurd List.mem_cons_self hn
    · rw [if_neg h]
      cases before with
      | nil => simp [h]
      | cons d ds =>
        simp only [Option.map_eq_some_iff, Prod.exists, Prod.mk.injEq, List.cons.injEq,
          List.cons_append, List.mem_cons, not_or]
        constructor
        · rintro ⟨b, a, he, ⟨rfl, rfl⟩, rfl⟩
          obtain ⟨rfl, hb⟩ := ih.mp he
          exact ⟨⟨rfl, rfl⟩, fun e => h e.symm, hb⟩
        · rintro ⟨⟨rfl, rfl⟩, _, hd⟩
          exact ⟨ds, after, ih.mpr ⟨rfl, hd⟩, ⟨rfl, rfl⟩, rfl⟩

theorem cutFirst_append {before : Text} (h : sep ∉ before) (after : Text) :
    cutFirst sep (before ++ sep :: after) = some (before, after) :=
  cutFirst_eq_some_iff.mpr ⟨rfl, h⟩

theorem cutFirst_eq_none_iff {t : Text} : cutFirst sep t = none ↔ sep ∉ t := by
  induction t with
  | nil => simp [cutFirst]
  | cons c cs ih =>
    unfold cutFirst
    by_cases h : c = sep
    · simp [h]
    · simp [h, ih, Ne.symm h]

theorem cutLast_eq_none_iff {t : Text} : cutLast sep t = none ↔ sep ∉ t := by
  induction t with
  | nil => simp [cutLast]
  | cons c cs ih =>
    unfold cutLast
    cases hc : cutLast sep cs with
    | none =>
      have hn : sep ∉ cs := ih.mp hc
      by_cases h : c = sep
      · simp [h]
      · simp [h, hn, Ne.symm h]
    | some cut =>
      have hm : sep ∈ cs := by
        by_contra hn
        rw [ih.mpr hn] at hc
        cases hc
      simp [hm]

/-- Whatever stands before a separator, the last cut of the text behind it decides. -/
theorem cutLast_append (before after : Text) :
    cutLast sep (before ++ sep :: after) =
      match cutLast sep after with
      | some (b, a) => some (before ++ sep :: b, a)
      | none => some (before, after) := by
  induction before with
  | nil =>
    simp only [List.nil_append, cutLast]
    cases cutLast sep after <;> simp
  | cons c cs ih =>
    simp only [List.cons_append, cutLast, ih]
    cases cutLast sep after <;> simp

theorem cutLast_eq_some_iff {t before after : Text} :
    cutLast sep t = some (before, after) ↔ t = before ++ sep :: after ∧ sep ∉ after := by
  constructor
  · intro h
    have hm : sep ∈ t := by
      by_contra hn
      rw [cutLast_eq_none_iff.mpr hn] at h
      cases h
    -- The last cut of any text with a separator is one behind which there is none.
    obtain ⟨back, front, hsplit, hn⟩ := List.eq_append_cons_of_mem (List.mem_reverse.mpr hm)
    have ht : t = front.reverse ++ sep :: back.reverse := by
      rw [← List.reverse_reverse t, hsplit]
      simp
    have hback : sep ∉ back.reverse := fun hc => hn (List.mem_reverse.mp hc)
    rw [ht, cutLast_append, cutLast_eq_none_iff.mpr hback, Option.some.injEq, Prod.mk.injEq] at h
    obtain ⟨rfl, rfl⟩ := h
    exact ⟨ht, hback⟩
  · rintro ⟨rfl, hn⟩
    rw [cutLast_append, cutLast_eq_none_iff.mpr hn]

/-- What precedes the first separator ends there, or it is the whole text. -/
theorem exists_beforeFirst_append (sep : Char) (t : Text) :
    ∃ rest, t = beforeFirst sep t ++ rest ∧ ∀ c, rest.head? = some c → c = sep := by
  refine ⟨t.dropWhile (· ≠ sep), List.takeWhile_append_dropWhile.symm, fun c hc => ?_⟩
  have hnot := List.head?_dropWhile_not (fun d => decide (d ≠ sep)) t
  rw [hc] at hnot
  simpa using hnot

theorem not_mem_beforeFirst (sep : Char) (t : Text) : sep ∉ beforeFirst sep t := by
  induction t with
  | nil => exact List.not_mem_nil
  | cons c cs ih =>
    rw [beforeFirst, List.takeWhile_cons]
    split
    · next hc => exact fun hm => (List.mem_cons.mp hm).elim (of_decide_eq_true hc).symm ih
    · exact List.not_mem_nil

theorem beforeFirst_append {t : Text} (h : sep ∉ t) (rest : Text) :
    beforeFirst sep (t ++ rest) = t ++ beforeFirst sep rest := by
  refine List.takeWhile_append_of_pos fun c hc => decide_eq_true ?_
  rintro rfl
  exact h hc

theorem afterLast_of_not_mem {t : Text} (h : sep ∉ t) : afterLast sep t = t := by
  rw [afterLast, cutLast_eq_none_iff.mpr h]

theorem afterLast_append (before after : Text) :
    afterLast sep (before ++ sep :: after) = afterLast sep after := by
  simp only [afterLast, cutLast_append]
  cases cutLast sep after <;> rfl

theorem not_mem_afterLast (sep : Char) (t : Text) : sep ∉ afterLast sep t := by
  rw [afterLast]
  split
  · next hcut => exact (cutLast_eq_some_iff.mp hcut).2
  · next hcut => exact cutLast_eq_none_iff.mp hcut

theorem suffix_afterLast (sep : Char) (t : Text) : afterLast sep t <:+ t := by
  rw [afterLast]
  split
  · next before after hcut =>
    rw [(cutLast_eq_some_iff.mp hcut).1]
    exact (List.suffix_cons sep after).trans (List.suffix_append before _)
  · exact List.suffix_rfl

theorem mem_of_mem_afterLast {t : Text} {c : Char} (h : c ∈ afterLast sep t) : c ∈ t :=
  (suffix_afterLast sep t).subset h

theorem mem_exchange {old new c : Char} {t : Text} (h : c ∈ exchange old new t) :
    c ∈ t ∨ c = new := by
  obtain ⟨d, hd, rfl⟩ := List.mem_map.mp h
  split
  · exact Or.inr rfl
  · exact Or.inl hd

theorem not_mem_exchange {old new : Char} (h : new ≠ old) (t : Text) : old ∉ exchange old new t := by
  intro hm
  obtain ⟨d, -, hd⟩ := List.mem_map.mp hm
  split at hd
  · exact h hd
  · next hne => exact hne hd

theorem exchange_append (old new : Char) (t u : Text) :
    exchange old new (t ++ u) = exchange old new t ++ exchange old new u :=
  List.map_append

theorem exchange_of_not_mem {old new : Char} {t : Text} (h : old ∉ t) : exchange old new t = t := by
  have he : ∀ c ∈ t, (if c = old then new else c) = c := by
    intro c hc
    rw [if_neg]
    rintro rfl
    exact h hc
  rw [exchange, List.map_congr_left he, List.map_id']

end ApiPages.Text
