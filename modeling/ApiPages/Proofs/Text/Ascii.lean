import ApiPages.Files.Tree
import ApiPages.Proofs.Text.Lines

/-! The bytes of a text: they determine it, and a text in ASCII has one byte for each character. -/
namespace ApiPages

namespace Text

/-- Every character is one of the first 128. -/
def IsAscii (t : Text) : Prop := ∀ c ∈ t, c.toNat < 128

instance (t : Text) : Decidable t.IsAscii :=
  List.decidableBAll (fun c : Char => c.toNat < 128) t

theorem IsAscii.append {t u : Text} (ht : t.IsAscii) (hu : u.IsAscii) : IsAscii (t ++ u) :=
  List.forall_mem_append.mpr ⟨ht, hu⟩

theorem IsAscii.cons {c : Char} {t : Text} (hc : c.toNat < 128) (ht : t.IsAscii) : IsAscii (c :: t) :=
  List.forall_mem_cons.mpr ⟨hc, ht⟩

theorem IsAscii.join {sep : Text} (hsep : sep.IsAscii) {ts : List Text} (h : ∀ t ∈ ts, t.IsAscii) :
    IsAscii (join sep ts) := by
  intro c hc
  rcases mem_join hc with hc | ⟨t, ht, hc⟩
  · exact hsep c hc
  · exact h t ht c hc

end Text

namespace Files

private theorem toList_loop (bytes : ByteArray) (i : Nat) (read : List UInt8) :
    ByteArray.toList.loop bytes i read = read.reverse ++ bytes.data.toList.drop i := by
  fun_induction ByteArray.toList.loop bytes i read with
  | case1 i read h ih =>
    have hi : i < bytes.data.size := h
    have hbyte : bytes.get! i = bytes.data[i] := getElem!_pos bytes.data i hi
    rw [ih, List.reverse_cons, List.append_assoc, hbyte,
      List.drop_eq_getElem_cons (show i < bytes.data.toList.length from hi)]
    rfl
  | case2 i read h =>
    have hi : bytes.data.toList.length ≤ i := Nat.le_of_not_lt h
    rw [List.drop_of_length_le hi, List.append_nil]

private theorem toList_eq (bytes : ByteArray) : bytes.toList = bytes.data.toList := by
  rw [ByteArray.toList, toList_loop, List.reverse_nil, List.nil_append, List.drop_zero]

private theorem encode_eq_flatMap (t : Text) : encode t = t.flatMap String.utf8EncodeChar := by
  rw [encode, String.toUTF8_eq_toByteArray, toList_eq, String.toByteArray_ofList, List.utf8Encode,
    List.toList_data_toByteArray]

theorem encode_injective : Function.Injective encode := by
  intro t u h
  rw [encode, encode, toList_eq, toList_eq] at h
  have hbytes : (String.ofList t).toUTF8 = (String.ofList u).toUTF8 :=
    ByteArray.ext (Array.toList_inj.mp h)
  exact String.ofList_injective (String.toByteArray_inj.mp hbytes)

theorem encode_of_isAscii {t : Text} (h : t.IsAscii) :
    encode t = t.map fun c => UInt8.ofNat c.toNat := by
  rw [encode_eq_flatMap, ← List.flatMap_pure_eq_map]
  refine List.flatMap_congr fun c hc => ?_
  have hle : c.val.toNat ≤ 127 := Nat.le_of_lt_succ (h c hc)
  rw [String.utf8EncodeChar]
  exact if_pos hle

end Files
end ApiPages
