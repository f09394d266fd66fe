import ApiPages.Identifier
import ApiPages.Proofs.Signature.Shortening

/-! The characters of headings. Names and headings have the characters of the identifiers they are made
from, those of labels, and the few signs between them. -/
namespace ApiPages

namespace Identifier

open Signature

theorem mem_of_mem_stripTag {t : Text} {c : Char} (h : c ∈ stripTag t) : c ∈ t := by
  rw [stripTag.eq_def] at h
  split at h
  · exact List.mem_cons_of_mem _ (List.mem_cons_of_mem _ h)
  · exact h

theorem mem_of_mem_behindRoot {options : Options} {name path : Text}
    (h : behindRoot? options name = some path) {c : Char} (hc : c ∈ path) : c ∈ name := by
  obtain ⟨root, _, hpath⟩ := Option.bind_eq_some_iff.mp h
  rw [Text.dropStart?] at hpath
  split at hpath
  · cases hpath
    exact List.mem_of_mem_drop hc
  · cases hpath

/-- The visible name of a type has the characters of its identifier and those of labels. -/
theorem mem_displayName {options : Options} {type : Text} {c : Char}
    (h : c ∈ displayName options type) : c ∈ type ∨ isLabelChar c = true := by
  rw [displayName] at h
  split at h
  · next path hpath =>
    rcases Text.mem_join h with h | ⟨label, hl, hc⟩
    · rw [List.mem_singleton.mp h]
      exact Or.inr rfl
    · obtain ⟨piece, hp, rfl⟩ := List.mem_map.mp hl
      refine (mem_shorten hc).imp_left fun hc => mem_of_mem_stripTag ?_
      exact mem_of_mem_behindRoot hpath (mem_of_mem_splitTopLevel hp hc)
  · exact (mem_shorten h).imp_left mem_of_mem_stripTag

/-- The characters that the heading of a member brings in. -/
def isHeaderChar (c : Char) : Bool := isLabelChar c || [':', '(', ')'].contains c

private theorem isHeaderChar_of_isLabelChar {c : Char} (h : isLabelChar c = true) :
    isHeaderChar c = true := by
  rw [isHeaderChar, h, Bool.true_or]

variable {i : Identifier} {c : Char}

private theorem mem_of_mem_kind (h : c ∈ i.kind) : c ∈ i := by
  rw [kind] at h
  split at h
  · next kind rest hcut =>
    rw [(Text.cutFirst_eq_some_iff.mp hcut).1]
    exact List.mem_append_left _ h
  · cases h

theorem mem_of_mem_id (h : c ∈ i.id) : c ∈ i := by
  rw [id] at h
  split at h
  · next kind rest hcut =>
    rw [(Text.cutFirst_eq_some_iff.mp hcut).1]
    exact List.mem_append_right kind (List.mem_cons_of_mem ':' h)
  · exact h

private theorem mem_kindWord (h : c ∈ i.kindWord) : c ∈ i ∨ isLabelChar c = true := by
  have hall : (kindWords.all fun w => w.2.all isLabelChar) = true := by decide
  have hwords : ∀ w ∈ kindWords, ∀ c ∈ w.2, isLabelChar c = true := fun w hw =>
    List.all_eq_true.mp (List.all_eq_true.mp hall w hw)
  rw [kindWord] at h
  cases hw : kindWords.lookup i.kind with
  | none =>
    rw [hw] at h
    exact Or.inl (mem_of_mem_kind h)
  | some word =>
    rw [hw] at h
    exact Or.inr (hwords _ (Keyed.mem_of_lookup_eq_some hw) c h)

/-- The name and the parameters are parts of what they are split from. -/
theorem mem_splitParameters {t : Text} {c : Char} :
    (c ∈ (splitParameters t).1 → c ∈ t) ∧ (c ∈ (splitParameters t).2.getD [] → c ∈ t) := by
  rw [splitParameters]
  split
  · exact ⟨fun h => h, fun h => by cases h⟩
  · next name rest henclosed =>
    obtain ⟨hname, hrest⟩ := enclosed_eq_unclosed henclosed
    exact ⟨hname c, hrest c⟩
  · next name parameters after henclosed =>
    obtain ⟨hname, hparameters, -⟩ := enclosed_eq_closed henclosed
    exact ⟨hname c, hparameters c⟩

private theorem mem_containingType (h : c ∈ containingType i) : c ∈ i ∨ isHeaderChar c = true := by
  have hname {c : Char} (h : c ∈ Text.beforeFirst '(' (stripTag i)) : c ∈ i :=
    mem_of_mem_stripTag ((List.takeWhile_prefix _).subset h)
  rw [containingType, List.mem_cons, List.mem_cons] at h
  rcases h with rfl | rfl | h
  · exact Or.inr rfl
  · exact Or.inr rfl
  · refine Or.inl (hname ?_)
    split at h
    · next owner name hcut =>
      rw [(Text.cutLast_eq_some_iff.mp hcut).1]
      exact List.mem_append_left _ h
    · exact h

private theorem mem_methodName {name : Text} {owner : Option Identifier} (h : c ∈ methodName name owner) :
    c ∈ name ∨ isLabelChar c = true ∨ ∃ type, owner = some type ∧ c ∈ type := by
  rw [methodName.eq_def] at h
  split at h
  · split at h
    · have hc := mem_of_mem_stripTag (mem_dropArity (Text.mem_of_mem_afterLast h))
      exact Or.inr (Or.inr ⟨_, rfl, hc⟩)
    · exact (mem_expandArity h).imp_right Or.inl
  · exact (mem_expandArity h).imp_right Or.inl

private theorem mem_memberName (h : c ∈ i.memberName) : c ∈ i ∨ isHeaderChar c = true := by
  have hname {c : Char} (h : c ∈ Text.afterLast '.' (splitParameters i.id).1) : c ∈ i :=
    mem_of_mem_id (mem_splitParameters.1 (Text.mem_of_mem_afterLast h))
  rw [memberName] at h
  split at h
  · rcases mem_methodName h with h | h | ⟨type, howner, h⟩
    · exact Or.inl (hname h)
    · exact Or.inr (isHeaderChar_of_isLabelChar h)
    · rw [← Option.some.inj howner] at h
      exact mem_containingType h
  · exact Or.inl (hname h)

/-- The key of a group has the characters of an identifier in it and those of headings. -/
theorem mem_groupKey (h : c ∈ i.groupKey) : c ∈ i ∨ isHeaderChar c = true := by
  have hsign : ∀ c ∈ ": ".toList, isHeaderChar c = true := Text.of_all rfl
  rw [groupKey, List.mem_append, List.mem_append] at h
  rcases h with (h | h) | h
  · exact (mem_kindWord h).imp_right isHeaderChar_of_isLabelChar
  · exact Or.inr (hsign c h)
  · exact mem_memberName h

private theorem mem_parameterList {raw : Text} {c : Char} (h : c ∈ parameterList raw) :
    c ∈ raw ∨ isLabelChar c = true := by
  have hsign : ∀ c ∈ ", ".toList, isLabelChar c = true := Text.of_all rfl
  rcases Text.mem_join h with h | ⟨label, hl, hc⟩
  · exact Or.inr (hsign c h)
  · obtain ⟨piece, hp, rfl⟩ := List.mem_map.mp hl
    exact (mem_shorten hc).imp_left fun hc => mem_of_mem_splitTopLevel hp hc

theorem mem_memberHeader (h : c ∈ i.memberHeader) : c ∈ i ∨ isHeaderChar c = true := by
  have hheader : i.memberHeader = i.groupKey ++
      if i.isMethod || (splitParameters i.id).2.isSome then parenthesised (splitParameters i.id).2
      else [] := rfl
  rw [hheader, List.mem_append] at h
  rcases h with h | h
  · exact mem_groupKey h
  · split at h
    · rw [parenthesised, List.mem_append, List.mem_cons, List.mem_singleton] at h
      rcases h with (rfl | h) | rfl
      · exact Or.inr rfl
      · refine (mem_parameterList h).imp (fun h => ?_) isHeaderChar_of_isLabelChar
        exact mem_of_mem_id (mem_splitParameters.2 h)
      · exact Or.inr rfl
    · cases h

end Identifier
end ApiPages
