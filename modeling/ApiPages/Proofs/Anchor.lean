import ApiPages.Link
import ApiPages.Proofs.Signature.Character
import ApiPages.Proofs.Signature.Keyword
import ApiPages.Proofs.Text.Cut
import ApiPages.Proofs.Text.Lowercase

/-! What anchors tell apart. The anchor of a member forgets the case of letters, the shape of brackets and
the full names of framework types, for which it has keywords, and nothing else. -/
namespace ApiPages

open Signature

/-- A character with a square bracket for a brace. -/
def squared (c : Char) : Char := if c = '{' then '[' else if c = '}' then ']' else c

/-- A character as anchors show it: small, and a square bracket for a brace. -/
def anchorChar (c : Char) : Char := Text.lowerChar (squared c)

/-- The capital whose small form depends on what stands around it, and the small form that it has at the
end of a word. -/
def sigmas : List Char := ['Σ', 'ς']

theorem forall_mem_sigmas {P : Char → Prop} : (∀ c ∈ sigmas, P c) ↔ P 'Σ' ∧ P 'ς' := by
  rw [sigmas, List.forall_mem_cons, List.forall_mem_singleton]

/-- What anchors show of a character, whatever stands around it: the sigmas count as one, and the capital
I with a dot is shown as two characters. -/
def anchorChars (c : Char) : Text :=
  if c ∈ sigmas then ['σ'] else if c = 'İ' then ['i', '\u0307'] else [anchorChar c]

/-- The ids are read alike in anchors: written with keywords for the full names of framework types, they
are the same but for the case of letters and the shape of brackets. -/
def ReadAlike (s t : Text) : Prop :=
  ∃ shown other, Spans s shown ∧ Spans t other ∧ shown.flatMap anchorChars = other.flatMap anchorChars

/-- The id is read in anchors as this text. -/
def IsReadAs (id anchor : Text) : Prop :=
  ∃ shown, Spans id shown ∧ shown.flatMap anchorChars = anchor

private theorem readAlike_iff {s t : Text} : ReadAlike s t ↔
    (applyTypeAliases s).flatMap anchorChars = (applyTypeAliases t).flatMap anchorChars := by
  constructor
  · rintro ⟨shown, other, hs, ht, h⟩
    rwa [spans_iff.mp hs, spans_iff.mp ht] at h
  · exact fun h => ⟨_, _, spans_iff.mpr rfl, spans_iff.mpr rfl, h⟩

theorem isReadAs_iff {id anchor : Text} :
    IsReadAs id anchor ↔ (applyTypeAliases id).flatMap anchorChars = anchor := by
  constructor
  · rintro ⟨shown, hshown, h⟩
    rwa [spans_iff.mp hshown] at h
  · exact fun h => ⟨_, spans_iff.mpr rfl, h⟩

private theorem exchange_braces (t : Text) :
    Text.exchange '}' ']' (Text.exchange '{' '[' t) = t.map squared := by
  rw [Text.exchange, Text.exchange, List.map_map]
  refine List.map_congr_left fun c _ => ?_
  by_cases hopen : c = '{'
  · subst hopen
    rfl
  · simp only [Function.comp_apply, squared, if_neg hopen]

private theorem squared_ne {c d : Char} (hc : c ≠ d) (hopening : '[' ≠ d) (hclosing : ']' ≠ d) :
    squared c ≠ d := by
  rw [squared]
  split
  · exact hopening
  · split
    · exact hclosing
    · exact hc

/-- But for the form of a sigma it does not matter where a character stands. -/
private theorem exchange_smallForm (endsWord : Bool) (c : Char) :
    Text.exchange 'ς' 'σ' (Text.smallForm endsWord (squared c)) = anchorChars c := by
  by_cases hsigma : c = 'Σ'
  · subst hsigma
    cases endsWord <;> rfl
  · by_cases hfinal : c = 'ς'
    · subst hfinal
      rfl
    · by_cases hdot : c = 'İ'
      · subst hdot
        rfl
      · have hother : c ∉ sigmas := by simp [sigmas, hsigma, hfinal]
        rw [Text.smallForm, if_neg (squared_ne hsigma (by decide) (by decide)),
          if_neg (squared_ne hdot (by decide) (by decide)), anchorChars, if_neg hother, if_neg hdot]
        refine Text.exchange_of_not_mem fun hm => ?_
        exact Text.lowerChar_ne_finalSigma (squared_ne hfinal (by decide) (by decide))
          (List.mem_singleton.mp hm).symm

private theorem exchange_lowerAfter (before t : Text) :
    Text.exchange 'ς' 'σ' (Text.lowerAfter before (t.map squared)) = t.flatMap anchorChars := by
  induction t generalizing before with
  | nil => rfl
  | cons c cs ih =>
    rw [List.map_cons, Text.lowerAfter_cons, Text.exchange_append, exchange_smallForm, ih,
      List.flatMap_cons]

/-- But for sigmas, an anchor is what is shown of the characters one by one. -/
theorem exchange_memberAnchor (id : Text) :
    Text.exchange 'ς' 'σ' (memberAnchor id) = (applyTypeAliases id).flatMap anchorChars := by
  rw [memberAnchor, exchange_braces]
  exact exchange_lowerAfter [] (applyTypeAliases id)

/-- Without sigmas an anchor is what is shown of the characters one by one. -/
theorem memberAnchor_eq_flatMap {id : Text} (h : ∀ c ∈ sigmas, c ∉ id) :
    memberAnchor id = (applyTypeAliases id).flatMap anchorChars := by
  have hsquared {c : Char} (hc : c ∈ sigmas) :
      c ∉ Text.exchange '}' ']' (Text.exchange '{' '[' (applyTypeAliases id)) := by
    have hsigma : ∀ d ∈ sigmas, d ≠ ']' ∧ d ≠ '[' ∧ isWordChar d = false :=
      forall_mem_sigmas.mpr (by decide)
    obtain ⟨hclosing, hopening, hword⟩ := hsigma c hc
    intro hm
    rcases mem_applyAliasesFrom (((Text.mem_exchange ((Text.mem_exchange hm).resolve_right
      hclosing)).resolve_right hopening)) with hid | hid
    · exact h c hc hid
    · rw [hword] at hid
      cases hid
  rw [← exchange_memberAnchor]
  exact (Text.exchange_of_not_mem (Text.finalSigma_not_mem_lower (hsquared (by decide))
    (hsquared (by decide)))).symm

/-- Members with one anchor have ids that are read alike. -/
theorem readAlike_of_memberAnchor_eq {s t : Text} (h : memberAnchor s = memberAnchor t) :
    ReadAlike s t := by
  rw [readAlike_iff, ← exchange_memberAnchor, ← exchange_memberAnchor, h]

/-- Without sigmas, ids have one anchor just when they are read alike. -/
theorem memberAnchor_eq_iff {s t : Text} (hs : ∀ c ∈ sigmas, c ∉ s) (ht : ∀ c ∈ sigmas, c ∉ t) :
    memberAnchor s = memberAnchor t ↔ ReadAlike s t := by
  rw [readAlike_iff, memberAnchor_eq_flatMap hs, memberAnchor_eq_flatMap ht]

/-- An anchor without sigmas is what is read of the id. -/
theorem isReadAs_memberAnchor {id : Text} (h : 'ς' ∉ memberAnchor id) :
    IsReadAs id (memberAnchor id) := by
  rw [isReadAs_iff, ← exchange_memberAnchor, Text.exchange_of_not_mem h]

/-- An anchor without a dot is that of a member with the full name of a framework type in its id. -/
theorem IsReadAs.dotInAlias {id anchor before rest : Text} (h : IsReadAs id anchor)
    (hdot : '.' ∉ anchor) (hid : id = before ++ '.' :: rest) : DotInAlias before id := by
  obtain ⟨shown, hshown, rfl⟩ := h
  refine hshown.dotInAlias (fun hm => hdot ?_) hid
  have hsmall : anchorChars '.' = ['.'] := by decide +kernel
  exact List.mem_flatMap.mpr ⟨'.', hm, by rw [hsmall]; exact List.mem_singleton_self _⟩

end ApiPages
