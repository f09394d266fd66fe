import ApiPages.Identifier
import ApiPages.Proofs.Text.Cut

/-! The shape of identifiers: a kind of one letter is their first character, and the rest stands
behind the colon. -/
namespace ApiPages.Identifier

private theorem eq_of_kind {i : Identifier} {k : Char} (h : i.kind = [k]) : i = k :: ':' :: i.id := by
  unfold kind at h
  unfold id
  cases hc : Text.cutFirst ':' i with
  | none =>
    rw [hc] at h
    cases h
  | some cut =>
    rw [hc] at h
    obtain ⟨he, _⟩ := Text.cutFirst_eq_some_iff.mp hc
    have hk : cut.1 = [k] := h
    rw [hk] at he
    exact he

theorem eq_of_isType {i : Identifier} (h : i.isType = true) : i = 'T' :: ':' :: i.id :=
  eq_of_kind (eq_of_beq h)

/-- The letters of the kinds that belong to a type. -/
def memberLetters : List Char := ['M', 'P', 'F', 'E']

theorem eq_of_isMember {i : Identifier} (h : i.isMember = true) :
    ∃ k ∈ memberLetters, i = k :: ':' :: i.id := by
  have hk : i.kind ∈ memberLetters.map fun k => [k] := List.contains_iff_mem.mp h
  obtain ⟨k, hm, he⟩ := List.mem_map.mp hk
  exact ⟨k, hm, eq_of_kind he.symm⟩

theorem isMember_of_isType {i : Identifier} (h : i.isType = true) : i.isMember = false := by
  rw [isMember, eq_of_beq h]
  rfl

end ApiPages.Identifier
