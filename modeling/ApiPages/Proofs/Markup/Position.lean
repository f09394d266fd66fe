import ApiPages.Markup.Element
import Mathlib.Data.List.Basic
import Mathlib.Data.List.Lex

/-! Positions in a document: what stands at one, and that a search by tag finds every element of the
tag, each at its own position and in document order. -/
namespace ApiPages.Markup.Element

/-- The element at the end of a way down through the children. -/
def at? : Position → Element → Option Element
  | [], e => some e
  | number :: rest, e => e.children[number]?.bind (at? rest)

theorem at?_cons (number : Nat) (rest : Position) (e : Element) :
    at? (number :: rest) e = e.children[number]?.bind (at? rest) := rfl

variable {tag : Text}

mutual

/-- The search finds the elements of the tag at and below the position, and nothing else. -/
theorem mem_occurrences {start position : Position} {root e : Element} :
    (position, e) ∈ occurrences tag start root ↔
      ∃ way, position = start ++ way ∧ at? way root = some e ∧ e.tag = tag := by
  obtain ⟨tag', attributes, text, children, tail⟩ := root
  have hhead : (position, e) ∈ (if tag' = tag then
      [(start, (⟨tag', attributes, text, children, tail⟩ : Element))] else []) ↔
      position = start ∧ (⟨tag', attributes, text, children, tail⟩ : Element) = e ∧
        e.tag = tag := by
    split
    · next htag =>
      rw [List.mem_singleton, Prod.mk.injEq]
      refine and_congr_right fun _ => ⟨?_, fun h => h.1.symm⟩
      rintro rfl
      exact ⟨rfl, htag⟩
    · next htag =>
      refine iff_of_false List.not_mem_nil ?_
      rintro ⟨-, rfl, he⟩
      exact htag he
  rw [occurrences, List.mem_append, hhead, mem_occurrencesFrom]
  constructor
  · rintro (⟨rfl, rfl, he⟩ | ⟨number, way, child, hchild, rfl, hway, he⟩)
    · exact ⟨[], (List.append_nil _).symm, rfl, he⟩
    · refine ⟨number :: way, by rw [Nat.zero_add], ?_, he⟩
      rw [at?_cons, hchild]
      exact hway
  · rintro ⟨way, rfl, hway, he⟩
    cases way with
    | nil => exact Or.inl ⟨List.append_nil _, Option.some.inj hway, he⟩
    | cons number way =>
      obtain ⟨child, hchild, hrest⟩ := Option.bind_eq_some_iff.mp hway
      exact Or.inr ⟨number, way, child, hchild, by rw [Nat.zero_add], hrest, he⟩

private theorem mem_occurrencesFrom {start position : Position} {first : Nat} {es : List Element}
    {e : Element} :
    (position, e) ∈ occurrencesFrom tag start first es ↔
      ∃ number way child, es[number]? = some child ∧ position = start ++ (first + number) :: way ∧
        at? way child = some e ∧ e.tag = tag := by
  cases es with
  | nil => simp [occurrencesFrom]
  | cons child rest =>
    rw [occurrencesFrom, List.mem_append, mem_occurrences, mem_occurrencesFrom]
    constructor
    · rintro (⟨way, rfl, hway⟩ | ⟨number, way, inner, hinner, rfl, hway⟩)
      · exact ⟨0, way, child, rfl, by simp, hway⟩
      · exact ⟨number + 1, way, inner, hinner, by rw [Nat.add_right_comm, Nat.add_assoc], hway⟩
    · rintro ⟨number, way, inner, hinner, rfl, hway⟩
      cases number with
      | zero =>
        obtain rfl := Option.some.inj hinner
        exact Or.inl ⟨way, by simp, hway⟩
      | succ number =>
        exact Or.inr ⟨number, way, inner, hinner, by rw [Nat.add_right_comm, Nat.add_assoc], hway⟩

end

mutual

/-- The search goes through the document from its beginning: an element comes before those inside it,
and these before those that follow it. -/
theorem pairwise_occurrences (start : Position) (root : Element) :
    (occurrences tag start root).Pairwise fun a b => a.1 < b.1 := by
  obtain ⟨tag', attributes, text, children, tail⟩ := root
  rw [occurrences, List.pairwise_append]
  refine ⟨?_, pairwise_occurrencesFrom start 0 children, ?_⟩
  · split
    · exact List.pairwise_singleton _ _
    · exact List.Pairwise.nil
  · rintro a ha ⟨position, e⟩ hb
    have hstart : a.1 = start := by
      split at ha
      · rw [List.mem_singleton.mp ha]
      · cases ha
    obtain ⟨number, way, -, -, rfl, -⟩ := mem_occurrencesFrom.mp hb
    have hlt : start ++ [] < start ++ (0 + number) :: way :=
      List.append_left_lt (List.nil_lt_cons _ _)
    rw [List.append_nil] at hlt
    rw [hstart]
    exact hlt

private theorem pairwise_occurrencesFrom (start : Position) (first : Nat) (es : List Element) :
    (occurrencesFrom tag start first es).Pairwise fun a b => a.1 < b.1 := by
  cases es with
  | nil =>
    rw [occurrencesFrom]
    exact List.Pairwise.nil
  | cons child rest =>
    rw [occurrencesFrom, List.pairwise_append]
    refine ⟨pairwise_occurrences _ child, pairwise_occurrencesFrom start (first + 1) rest, ?_⟩
    rintro ⟨position, e⟩ ha ⟨position', e'⟩ hb
    obtain ⟨way, rfl, -⟩ := mem_occurrences.mp ha
    obtain ⟨number, way', -, -, rfl, -⟩ := mem_occurrencesFrom.mp hb
    have hnumber : first < first + 1 + number := by omega
    rw [List.append_assoc]
    exact List.append_left_lt (List.cons_lt_cons_iff.mpr (Or.inl hnumber))

end

end ApiPages.Markup.Element
