import ApiPages.Text.Basic

/-! Facts about characters that are found by trying them one by one: those of a text, or the first
128. -/
namespace ApiPages.Text

theorem of_all {P : Char → Prop} [DecidablePred P] {t : Text}
    (h : t.all (fun c => decide (P c)) = true) : ∀ c ∈ t, P c :=
  fun c hc => of_decide_eq_true (List.all_eq_true.mp h c hc)

theorem of_ascii {P : Char → Prop} (h : ∀ n < 128, P (Char.ofNat n)) {c : Char}
    (hc : c.toNat < 128) : P c := by
  have hp := h c.toNat hc
  rw [Char.ofNat_toNat] at hp
  exact hp

end ApiPages.Text
