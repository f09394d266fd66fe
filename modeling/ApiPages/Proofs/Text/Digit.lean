import ApiPages.Proofs.Text.Character
import ApiPages.Text.Blank
import ApiPages.Text.Digit
import ApiPages.Text.Quoted

/-! Numbers in digits, and what is read back from them. -/
namespace ApiPages.Text

theorem isDigit_of_mem_ofNat {n : Nat} {c : Char} (h : c ∈ ofNat n) : c.isDigit = true := by
  rw [ofNat, Nat.toList_repr] at h
  exact Nat.isDigit_of_mem_toDigits (by decide) (by decide) h

theorem toNat_lt_of_isDigit {c : Char} (h : c.isDigit = true) : c.toNat < 128 := by
  have hc : c.toNat ≤ 57 := by
    simp only [Char.isDigit, Bool.and_eq_true, decide_eq_true_eq] at h
    exact h.2
  omega

theorem isDigit_of_char {c : Char} (h : c.isDigit = true) : isDigit c = true :=
  of_ascii (P := fun c => c.isDigit = true → isDigit c = true) (by decide +kernel)
    (toNat_lt_of_isDigit h) h

theorem isBlank_of_isDigit {c : Char} (h : c.isDigit = true) : isBlank c = false :=
  of_ascii (P := fun c => c.isDigit = true → isBlank c = false) (by decide)
    (toNat_lt_of_isDigit h) h

/-- No script has its digits among the blanks. -/
theorem isDigit_of_isBlank {c : Char} (h : isBlank c = true) : isDigit c = false := by
  have hranges : ∀ r ∈ blankRanges, ∀ start ∈ zeros, r.2 < start ∨ start + 10 ≤ r.1 := by
    decide +kernel
  obtain ⟨r, hr, hc⟩ := List.any_eq_true.mp h
  rw [CharRange.holds, Bool.and_eq_true, decide_eq_true_eq, decide_eq_true_eq] at hc
  rw [isDigit, Option.isSome_eq_false_iff, Option.isNone_iff_eq_none, digitValue?,
    List.findSome?_eq_none_iff]
  intro start hstart
  rw [if_neg]
  rw [Bool.and_eq_true, decide_eq_true_eq, decide_eq_true_eq]
  rcases hranges r hr start hstart with hbelow | habove <;> omega

theorem ofNat_ne_nil (n : Nat) : ofNat n ≠ [] := by
  rw [ofNat, Nat.toList_repr]
  exact List.ne_nil_of_length_pos Nat.length_toDigits_pos

/-- What holds of every hexadecimal digit holds of those of a number. -/
theorem forall_mem_toDigits {P : Char → Prop} (h : ∀ d < 16, P d.digitChar) (n : Nat) :
    ∀ c ∈ Nat.toDigits 16 n, P c := by
  induction n using Nat.strongRecOn with
  | _ n ih =>
    by_cases hn : n < 16
    · rw [Nat.toDigits_of_lt_base hn]
      exact List.forall_mem_singleton.mpr (h n hn)
    · rw [Nat.toDigits_of_base_le (by decide) (by omega), List.forall_mem_append]
      exact ⟨ih (n / 16) (by omega),
        List.forall_mem_singleton.mpr (h _ (Nat.mod_lt n (by decide)))⟩

theorem forall_mem_hexPadded {P : Char → Prop} (h : ∀ d < 16, P d.digitChar) (width n : Nat) :
    ∀ c ∈ hexPadded width n, P c := by
  rw [hexPadded, List.forall_mem_append]
  refine ⟨fun c hc => ?_, forall_mem_toDigits h n⟩
  rw [List.eq_of_mem_replicate hc]
  exact h 0 (by decide)

/-- What the digits of a number spell in a base, when every digit counts for itself, is the number. -/
theorem foldl_toDigits {base : Nat} (hbase : 1 < base) {value : Char → Nat}
    (hvalue : ∀ d < base, value d.digitChar = d) (n : Nat) :
    (Nat.toDigits base n).foldl (fun sum c => base * sum + value c) 0 = n := by
  induction n using Nat.strongRecOn with
  | _ n ih =>
    by_cases hn : n < base
    · rw [Nat.toDigits_of_lt_base hn, List.foldl_cons, List.foldl_nil, hvalue n hn]
      omega
    · have hd : n / base < n := Nat.div_lt_self (by omega) hbase
      have hl : n % base < base := Nat.mod_lt n (by omega)
      rw [Nat.toDigits_of_base_le hbase (by omega), List.foldl_append, ih (n / base) hd,
        List.foldl_cons, List.foldl_nil, hvalue _ hl]
      exact Nat.div_add_mod n base

private theorem digitValue?_digitChar : ∀ d < 10, (digitValue? d.digitChar).getD 0 = d := by
  decide +kernel

/-- The value of the digits of a number is the number. -/
theorem digitsValue_ofNat (n : Nat) : digitsValue (ofNat n) = n := by
  rw [ofNat, Nat.toList_repr]
  exact foldl_toDigits (by decide) digitValue?_digitChar n

private theorem ofNat_injective : Function.Injective ofNat := fun n m h => by
  rw [← digitsValue_ofNat n, h, digitsValue_ofNat]

/-- No digit comes first. -/
def EndsNumber (t : Text) : Prop := ∀ c ∈ t.head?, c.isDigit = false

theorem endsNumber_nil : EndsNumber [] := fun _ h => nomatch h

private theorem takeWhile_ofNat_append {r : Text} (h : EndsNumber r) (n : Nat) :
    (ofNat n ++ r).takeWhile Char.isDigit = ofNat n := by
  have hr : r.takeWhile Char.isDigit = [] := by
    cases r with
    | nil => rfl
    | cons c cs => exact List.takeWhile_cons_of_neg (by simp [h c rfl])
  rw [List.takeWhile_append_of_pos fun c hc => isDigit_of_mem_ofNat hc, hr, List.append_nil]

/-- A negative number is told from the others by its first character. -/
private theorem minus_ne_ofNat_append (n : Nat) (r t : Text) : ofNat n ++ r ≠ '-' :: t := by
  intro h
  obtain ⟨c, cs, hn⟩ := List.exists_cons_of_ne_nil (ofNat_ne_nil n)
  have hc : c.isDigit = true := isDigit_of_mem_ofNat (hn ▸ List.mem_cons_self)
  rw [hn, List.cons_append] at h
  rw [(List.cons.inj h).1] at hc
  cases hc

/-- In front of texts that end them, the digits of an integer are only its own. -/
theorem eq_of_ofInt_append {i j : Int} {r s : Text} (hr : EndsNumber r) (hs : EndsNumber s)
    (h : ofInt i ++ r = ofInt j ++ s) : i = j := by
  have hdigits {n m : Nat} (h : ofNat n ++ r = ofNat m ++ s) : n = m := by
    apply ofNat_injective
    rw [← takeWhile_ofNat_append hr n, h, takeWhile_ofNat_append hs m]
  cases i with
  | ofNat n =>
    cases j with
    | ofNat m => rw [hdigits h]
    | negSucc m => exact absurd h (minus_ne_ofNat_append n r _)
  | negSucc n =>
    cases j with
    | ofNat m => exact absurd h.symm (minus_ne_ofNat_append m s _)
    | negSucc m => rw [Nat.succ.inj (hdigits (List.cons.inj h).2)]

end ApiPages.Text
