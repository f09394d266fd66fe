import ApiPages.Proofs.Text.Ascii
import ApiPages.Proofs.Text.Digit
import ApiPages.Value.JsonText
import Mathlib.Data.Nat.Digits.Defs

/-! The strings of a JSON text read back: its escapes are told from plain characters, and a surrogate
pair is told from the characters that one code unit spells. -/
namespace ApiPages

namespace Text

def hexDigitValue (c : Char) : Nat := if c.isDigit then c.toNat - 48 else c.toNat - 87

/-- The number that hexadecimal digits spell. -/
def hexValue (t : Text) : Nat := t.foldl (fun n c => 16 * n + hexDigitValue c) 0

private theorem hexDigitValue_digitChar : ∀ d < 16, hexDigitValue d.digitChar = d := by
  decide +kernel

private theorem hexValue_hexPadded (width n : Nat) : hexValue (hexPadded width n) = n := by
  have hzeros : ∀ count : Nat,
      (List.replicate count '0').foldl (fun n c => 16 * n + hexDigitValue c) 0 = 0 := by
    intro count
    induction count with
    | zero => rfl
    | succ count ih =>
      rw [List.replicate_succ, List.foldl_cons]
      exact ih
  rw [hexValue, hexPadded, List.foldl_append, hzeros]
  exact foldl_toDigits (by decide) hexDigitValue_digitChar n

private theorem length_hexPadded {width n : Nat} (hwidth : 0 < width) (h : n < 16 ^ width) :
    (hexPadded width n).length = width := by
  have hle : (Nat.toDigits 16 n).length ≤ width := Nat.toDigits_length 16 n width hwidth h
  rw [hexPadded, List.length_append, List.length_replicate]
  omega

private theorem digitChar_lt : ∀ d < 16, d.digitChar.toNat < 128 := by
  decide +kernel

private theorem isAscii_hexPadded (width n : Nat) : IsAscii (hexPadded width n) :=
  forall_mem_hexPadded digitChar_lt width n

theorem isAscii_ofInt (i : Int) : IsAscii (ofInt i) := by
  have hdigits (n : Nat) : IsAscii (ofNat n) := fun c hc =>
    toNat_lt_of_isDigit (isDigit_of_mem_ofNat hc)
  cases i with
  | ofNat n => exact hdigits n
  | negSucc n => exact (hdigits (n + 1)).cons (by decide)

end Text

namespace Value

/-- The code unit that comes first in the inside of a JSON string, and what follows it. -/
def readUnit : Text → Nat × Text
  | '\\' :: 'u' :: a :: b :: c :: d :: rest => (Text.hexValue [a, b, c, d], rest)
  | '\\' :: 'n' :: rest => (10, rest)
  | '\\' :: 'r' :: rest => (13, rest)
  | '\\' :: 't' :: rest => (9, rest)
  | '\\' :: 'b' :: rest => (8, rest)
  | '\\' :: 'f' :: rest => (12, rest)
  | '\\' :: c :: rest => (c.toNat, rest)
  | c :: rest => (c.toNat, rest)
  | [] => (0, [])

/-- The character that comes first in the inside of a JSON string, of one code unit or of a surrogate
pair, and what follows it. -/
def readChar (t : Text) : Char × Text :=
  let (high, rest) := readUnit t
  if high < 0xD800 || 0xDC00 ≤ high then (Char.ofNat high, rest)
  else
    let (low, rest) := readUnit rest
    (Char.ofNat (0x10000 + (high - 0xD800) * 0x400 + (low - 0xDC00)), rest)

private theorem readUnit_unitEscape {n : Nat} (h : n < 0x10000) (r : Text) :
    readUnit (unitEscape n ++ r) = (n, r) := by
  have hlength : (Text.hexPadded 4 n).length = 4 := Text.length_hexPadded (by decide) h
  have hvalue : Text.hexValue (Text.hexPadded 4 n) = n := Text.hexValue_hexPadded 4 n
  obtain ⟨a, b, c, d, hdigits⟩ : ∃ a b c d, Text.hexPadded 4 n = [a, b, c, d] := by
    match Text.hexPadded 4 n, hlength with
    | [a, b, c, d], _ => exact ⟨a, b, c, d, rfl⟩
  rw [hdigits] at hvalue
  rw [unitEscape, hdigits, ← hvalue]
  rfl

private theorem readUnit_plain {c : Char} (h : c ≠ '\\') (r : Text) :
    readUnit (c :: r) = (c.toNat, r) := by
  unfold readUnit
  split <;> simp_all

/-- A character is no surrogate, so it is read from one code unit. -/
theorem readChar_of_readUnit {t r : Text} {c : Char} (h : readUnit t = (c.toNat, r)) :
    readChar t = (c, r) := by
  have hvalid : c.toNat < 0xD800 ∨ 0xDC00 ≤ c.toNat := by
    rcases c.valid with hc | ⟨hc, -⟩
    · exact Or.inl hc
    · exact Or.inr (Nat.le_of_lt (Nat.lt_of_le_of_lt (by decide) hc))
  rw [readChar, h]
  simp only [Bool.or_eq_true, decide_eq_true_eq, if_pos hvalid, Char.ofNat_toNat]

private theorem readChar_of_surrogates {t r s : Text} {high low : Nat} (hhigh : high < 0x400)
    (ht : readUnit t = (0xD800 + high, r)) (hr : readUnit r = (0xDC00 + low, s)) :
    readChar t = (Char.ofNat (0x10000 + high * 0x400 + low), s) := by
  have hsurrogate : ¬(decide (0xD800 + high < 0xD800) || decide (0xDC00 ≤ 0xD800 + high)) = true := by
    simp only [Bool.or_eq_true, decide_eq_true_eq]
    omega
  rw [readChar, ht]
  dsimp only
  rw [if_neg hsurrogate, hr, Nat.add_sub_cancel_left, Nat.add_sub_cancel_left]

private theorem readChar_pair {c : Char} (h : 0x10000 ≤ c.toNat) (r : Text) :
    readChar (unitEscape (0xD800 + (c.toNat - 0x10000) / 0x400) ++
      unitEscape (0xDC00 + (c.toNat - 0x10000) % 0x400) ++ r) = (c, r) := by
  have hmax : c.toNat < 0x110000 := by
    rcases c.valid with hc | ⟨-, hc⟩
    · exact Nat.lt_trans hc (by decide)
    · exact hc
  have hhigh : (c.toNat - 0x10000) / 0x400 < 0x400 := by omega
  have hlow : (c.toNat - 0x10000) % 0x400 < 0x400 := Nat.mod_lt _ (by decide)
  have hsum : 0x10000 + (c.toNat - 0x10000) / 0x400 * 0x400 + (c.toNat - 0x10000) % 0x400 =
      c.toNat := by omega
  have hread := readChar_of_surrogates hhigh
    (readUnit_unitEscape (by omega) (unitEscape (0xDC00 + (c.toNat - 0x10000) % 0x400) ++ r))
    (readUnit_unitEscape (by omega) r)
  rw [List.append_assoc, hread, hsum, Char.ofNat_toNat]

/-- Every character is read back from what a JSON string writes for it, whatever follows. -/
theorem readChar_jsonChar (c : Char) (r : Text) : readChar (jsonChar c ++ r) = (c, r) := by
  unfold jsonChar
  dsimp only
  split
  · next h =>
    rcases Bool.or_eq_true_iff.mp h with h | h
    · rw [of_decide_eq_true h]
      exact readChar_of_readUnit rfl
    · rw [of_decide_eq_true h]
      exact readChar_of_readUnit rfl
  split
  · next h => exact h ▸ readChar_of_readUnit rfl
  split
  · next h => exact h ▸ readChar_of_readUnit rfl
  split
  · next h => exact h ▸ readChar_of_readUnit rfl
  split
  · next h => exact readChar_of_readUnit (h ▸ rfl)
  split
  · next h => exact readChar_of_readUnit (h ▸ rfl)
  split
  · next h _ _ _ _ _ _ =>
    refine readChar_of_readUnit (readUnit_plain ?_ r)
    rintro rfl
    exact h rfl
  split
  · next h => exact readChar_of_readUnit (readUnit_unitEscape h r)
  · next h => exact readChar_pair (Nat.le_of_not_lt h) r

private theorem eq_of_jsonChar_append {c d : Char} {r s : Text} (h : jsonChar c ++ r = jsonChar d ++ s) :
    c = d ∧ r = s := by
  have hread := congrArg readChar h
  rw [readChar_jsonChar, readChar_jsonChar] at hread
  exact Prod.mk.inj hread

/-- A quote inside a JSON string is escaped, so a quote without a backslash ends the string. -/
theorem jsonChar_append_ne_quote (c : Char) (r s : Text) : jsonChar c ++ r ≠ '"' :: s := by
  intro h
  have hread := congrArg readChar h
  rw [readChar_jsonChar, readChar_of_readUnit (readUnit_plain (by decide) s)] at hread
  obtain ⟨rfl, -⟩ := Prod.mk.inj hread
  exact absurd (List.cons.inj h).1 (by decide)

private theorem eq_of_jsonChars_append {t u r s : Text}
    (h : t.flatMap jsonChar ++ '"' :: r = u.flatMap jsonChar ++ '"' :: s) : t = u ∧ r = s := by
  induction t generalizing u with
  | nil =>
    cases u with
    | nil => exact ⟨rfl, (List.cons.inj h).2⟩
    | cons d ds =>
      rw [List.flatMap_cons, List.append_assoc] at h
      exact absurd h.symm (jsonChar_append_ne_quote d _ r)
  | cons c cs ih =>
    rw [List.flatMap_cons, List.append_assoc] at h
    cases u with
    | nil => exact absurd h (jsonChar_append_ne_quote c _ s)
    | cons d ds =>
      rw [List.flatMap_cons, List.append_assoc] at h
      obtain ⟨rfl, hrest⟩ := eq_of_jsonChar_append h
      obtain ⟨rfl, rfl⟩ := ih hrest
      exact ⟨rfl, rfl⟩

/-- A JSON string ends where its text says, whatever follows. -/
theorem eq_of_jsonString_append {t u r s : Text} (h : jsonString t ++ r = jsonString u ++ s) :
    t = u ∧ r = s := by
  rw [jsonString, jsonString, List.append_assoc, List.append_assoc] at h
  exact eq_of_jsonChars_append (List.cons.inj h).2

private theorem isAscii_jsonChar (c : Char) : Text.IsAscii (jsonChar c) := by
  have hescape (n : Nat) : Text.IsAscii (unitEscape n) :=
    Text.IsAscii.cons (by decide) (Text.IsAscii.cons (by decide) (Text.isAscii_hexPadded 4 n))
  unfold jsonChar
  dsimp only
  split
  · next h =>
    rcases Bool.or_eq_true_iff.mp h with h | h <;> rw [of_decide_eq_true h] <;> decide
  split
  · decide
  split
  · decide
  split
  · decide
  split
  · decide
  split
  · decide
  split
  · next h =>
    have hlt : c.toNat < 0x7F := of_decide_eq_true (Bool.and_eq_true_iff.mp h).2
    exact List.forall_mem_singleton.mpr (Nat.lt_trans hlt (by decide))
  split
  · exact hescape c.toNat
  · exact (hescape _).append (hescape _)

theorem isAscii_jsonString (t : Text) : Text.IsAscii (jsonString t) := by
  refine Text.IsAscii.cons (by decide) (Text.IsAscii.append (fun c hc => ?_) (by decide))
  obtain ⟨d, -, hd⟩ := List.mem_flatMap.mp hc
  exact isAscii_jsonChar d c hd

end Value
end ApiPages
