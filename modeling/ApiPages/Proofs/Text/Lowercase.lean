import ApiPages.Proofs.Text.Character
import ApiPages.Text.Lowercase
import Mathlib.Data.List.Basic

/-! Lower case: character by character, but for the two capitals that it treats by rules of their
own. -/
namespace ApiPages.Text

/-- A character is its own small form, or it is in a run that shifts it; a shift to a code that no
character has gives the code 0. -/
private theorem lowerChar_cases (c : Char) : lowerChar c = c ∨ ∃ r ∈ caseRuns,
    r.first ≤ c.toNat ∧ c.toNat ≤ r.last ∧
      ((lowerChar c).toNat = ((c.toNat : Int) + r.shift).toNat ∨ lowerChar c = Char.ofNat 0) := by
  rw [lowerChar]
  split
  · next r hr =>
    have hrun := List.find?_some hr
    simp only [Bool.and_eq_true, decide_eq_true_eq] at hrun
    obtain ⟨⟨hfirst, hlast⟩, -⟩ := hrun
    refine Or.inr ⟨r, List.mem_of_find?_eq_some hr, hfirst, hlast, ?_⟩
    by_cases hvalid : ((c.toNat : Int) + r.shift).toNat.isValidChar
    · rw [Char.ofNat, dif_pos hvalid]
      exact Or.inl rfl
    · rw [Char.ofNat, dif_neg hvalid]
      exact Or.inr rfl
  · exact Or.inl rfl

private theorem caseRuns_above_ascii : ∀ r ∈ caseRuns, 128 ≤ r.last →
    128 ≤ (r.first : Int) + r.shift ∨ r.first = 0x212A ∧ r.last = 0x212A := by
  decide +kernel

/-- Beyond ASCII only the Kelvin sign has a small form in ASCII. -/
private theorem lowerChar_above_ascii {c : Char} (h : 128 ≤ c.toNat) (hkelvin : c ≠ '\u212A') :
    128 ≤ (lowerChar c).toNat ∨ lowerChar c = Char.ofNat 0 := by
  rcases lowerChar_cases c with hself | ⟨r, hr, hfirst, hlast, hcode | hzero⟩
  · rw [hself]
    exact Or.inl h
  · have hne : ¬ (r.first = 0x212A ∧ r.last = 0x212A) := by
      rintro ⟨h1, h2⟩
      have hsign : c.toNat = 0x212A := by omega
      exact hkelvin (Char.ext (UInt32.toNat_inj.mp hsign))
    have hshift := (caseRuns_above_ascii r hr (Nat.le_trans h hlast)).resolve_right hne
    exact Or.inl (by omega)
  · exact Or.inr hzero

/-- No other character has the line feed as its small form. -/
private theorem lowerChar_ne_lineFeed {c : Char} (h : c ≠ '\n') : lowerChar c ≠ '\n' := by
  by_cases hascii : c.toNat < 128
  · have hall : ∀ n < 128, Char.ofNat n ≠ '\n' → lowerChar (Char.ofNat n) ≠ '\n' := by
      decide +kernel
    exact of_ascii (P := fun c => c ≠ '\n' → lowerChar c ≠ '\n') hall hascii h
  · by_cases hkelvin : c = '\u212A'
    · subst hkelvin
      decide +kernel
    · rcases lowerChar_above_ascii (by omega) hkelvin with hlarge | hzero
      · intro he
        rw [he] at hlarge
        exact absurd hlarge (by decide)
      · rw [hzero]
        decide

private theorem caseRuns_beside_finalSigma : ∀ r ∈ caseRuns,
    0x3C2 < (r.first : Int) + r.shift ∨ (r.last : Int) + r.shift < 0x3C2 := by
  decide +kernel

/-- No other character has the final sigma as its small form. -/
theorem lowerChar_ne_finalSigma {c : Char} (h : c ≠ 'ς') : lowerChar c ≠ 'ς' := by
  rcases lowerChar_cases c with hself | ⟨r, hr, hfirst, hlast, hcode | hzero⟩
  · rwa [hself]
  · intro he
    have hbeside := caseRuns_beside_finalSigma r hr
    have hsigma : (lowerChar c).toNat = 0x3C2 := congrArg Char.toNat he
    omega
  · rw [hzero]
    decide

/-- What lower case makes of a character, which is at the end of a word or not. -/
def smallForm (endsWord : Bool) (c : Char) : Text :=
  if c = 'Σ' then if endsWord then ['ς'] else ['σ']
  else if c = 'İ' then ['i', '\u0307']
  else [lowerChar c]

theorem lowerAfter_cons (before : Text) (c : Char) (cs : Text) : lowerAfter before (c :: cs) =
    smallForm (meetsCased before && !meetsCased cs) c ++ lowerAfter (c :: before) cs := by
  rw [lowerAfter, smallForm]

/-- A character that is in no small form of a text is not in the text in lower case. -/
private theorem not_mem_lower {d : Char} {t : Text}
    (h : ∀ c ∈ t, ∀ endsWord, d ∉ smallForm endsWord c) : d ∉ lower t := by
  have hafter (before : Text) : d ∉ lowerAfter before t := by
    induction t generalizing before with
    | nil => exact List.not_mem_nil
    | cons c cs ih =>
      obtain ⟨hc, hcs⟩ := List.forall_mem_cons.mp h
      rw [lowerAfter_cons, List.mem_append, not_or]
      exact ⟨hc _, ih hcs _⟩
  exact hafter []

theorem lineFeed_not_mem_lower {t : Text} (h : '\n' ∉ t) : '\n' ∉ lower t := by
  refine not_mem_lower fun c hc endsWord => ?_
  have hne : c ≠ '\n' := fun he => h (he ▸ hc)
  rw [smallForm]
  split
  · cases endsWord <;> decide
  · split
    · decide
    · exact fun hm => lowerChar_ne_lineFeed hne (List.mem_singleton.mp hm).symm

/-- Where no sigma stands, lower case has no final one. -/
theorem finalSigma_not_mem_lower {t : Text} (hcapital : 'Σ' ∉ t) (hfinal : 'ς' ∉ t) :
    'ς' ∉ lower t := by
  refine not_mem_lower fun c hc endsWord => ?_
  have hne : c ≠ 'ς' := fun he => hfinal (he ▸ hc)
  have hsigma : c ≠ 'Σ' := fun he => hcapital (he ▸ hc)
  rw [smallForm, if_neg hsigma]
  split
  · decide
  · exact fun hm => lowerChar_ne_finalSigma hne (List.mem_singleton.mp hm).symm

end ApiPages.Text
