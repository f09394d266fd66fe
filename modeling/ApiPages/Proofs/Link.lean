import ApiPages.Link
import ApiPages.Proofs.Identifier
import ApiPages.Proofs.Signature.Heading
import ApiPages.Proofs.Text.Character
import ApiPages.Proofs.Text.Lowercase

/-! Where links lead: the places of members and types, read off their identifiers. -/
namespace ApiPages

/-- A file name has the characters of the identifier, square brackets and those of the ending. -/
theorem mem_fileName {options : Options} {type : Text} {c : Char} (h : c ∈ fileName options type) :
    c ∈ type ∨ c ∈ "[<>].md".toList := by
  have htrimmed {d : Char} (hd : d ∈ if options.trimsFileNames.isTrue
      then (Identifier.behindRoot? options (Identifier.stripTag type)).getD (Identifier.stripTag type)
      else Identifier.stripTag type) : d ∈ type := by
    refine Identifier.mem_of_mem_stripTag ?_
    split at hd
    · cases hroot : Identifier.behindRoot? options (Identifier.stripTag type) with
      | none => simpa [hroot] using hd
      | some path =>
        rw [hroot] at hd
        exact Identifier.mem_of_mem_behindRoot hroot hd
    · exact hd
  rw [fileName] at h
  rcases List.mem_append.mp h with h | h
  · rcases Text.mem_exchange h with h | rfl
    · rcases Text.mem_exchange h with h | rfl
      · cases hs : options.fileNameStyle with
        | verbatim =>
          rw [hs] at h
          exact Or.inl (htrimmed h)
        | cleanGenerics =>
          rw [hs] at h
          rcases Text.mem_exchange h with h | rfl
          · rcases Text.mem_exchange h with h | rfl
            · exact Or.inl (htrimmed (Signature.mem_dropArity h))
            · exact Or.inr (by decide)
          · exact Or.inr (by decide)
      · exact Or.inr (by decide)
    · exact Or.inr (by decide)
  · exact Or.inr (List.mem_append_right "[<>]".toList h)

theorem isSlugChar_of_mem_headerSlug {heading : Text} {c : Char} (h : c ∈ headerSlug heading) :
    isSlugChar c = true := by
  have hsection : ∀ c ∈ "section".toList, isSlugChar c = true := Text.of_all rfl
  simp only [headerSlug] at h
  split at h
  · exact hsection c h
  · exact List.of_mem_filter h

theorem lineFeed_not_mem_memberAnchor {id : Text} (h : '\n' ∉ id) : '\n' ∉ memberAnchor id := by
  refine Text.lineFeed_not_mem_lower fun hm => ?_
  rcases Text.mem_exchange hm with hm | he
  · rcases Text.mem_exchange hm with hm | he
    · exact (Signature.mem_applyAliasesFrom hm).elim h (by decide)
    · exact absurd he (by decide)
  · exact absurd he (by decide)

theorem lineFeed_not_mem_anchorMark {anchor : Text} (h : '\n' ∉ anchor) :
    '\n' ∉ anchorMark anchor := by
  unfold anchorMark
  simp only [List.mem_append, not_or]
  exact ⟨⟨by decide, h⟩, by decide⟩

namespace Link

theorem markdown_of_href {link : Link} {href : Text} (h : link.href = some href) :
    link.markdown = '[' :: link.title ++ "](".toList ++ href ++ [')'] := by
  rw [markdown, h]

theorem lineFeed_not_mem_markdown {link : Link} (htitle : '\n' ∉ link.title)
    (hhref : ∀ href, link.href = some href → '\n' ∉ href) : '\n' ∉ link.markdown := by
  rw [markdown]
  split
  · simp [htitle]
  · next href h => simp [htitle, hhref href h]

end Link

namespace Reference

theorem isTagged_cons {k : Char} (hk : Text.isLetter k = true) {id : Text} (hid : id ≠ []) :
    isTagged (k :: ':' :: id) = true := by
  cases id with
  | nil => exact absurd rfl hid
  | cons c cs => exact hk

theorem label_type (options : Options) {id : Text} (hid : id ≠ []) :
    label options ('T' :: ':' :: id) = Identifier.displayName options id := by
  have ht := isTagged_cons (k := 'T') rfl hid
  simp [label, ht]

theorem place?_type (options : Options) (singleDocument : Bool) {id : Text} (hid : id ≠ []) :
    place? options singleDocument ('T' :: ':' :: id) =
      some (if singleDocument then '#' :: headerSlug (Identifier.displayName options id)
        else fileName options ('T' :: ':' :: id)) := by
  have ht := isTagged_cons (k := 'T') rfl hid
  have hl := label_type options hid
  cases singleDocument <;> simp [place?, ht, hl, linkableKinds]

theorem place?_member (options : Options) (singleDocument : Bool) {k : Char}
    (hk : k ∈ Identifier.memberLetters) {id : Text} (hid : id ≠ []) :
    place? options singleDocument (k :: ':' :: id) =
      some ((if singleDocument then []
        else fileName options (Identifier.containingType (k :: ':' :: id))) ++
          '#' :: memberAnchor id) := by
  have hkinds : ∀ k ∈ Identifier.memberLetters,
      Text.isLetter k = true ∧ k ∈ linkableKinds ∧ k ≠ 'T' := Text.of_all rfl
  obtain ⟨hl, hlink, hne⟩ := hkinds k hk
  have ht := isTagged_cons hl hid
  cases singleDocument <;> simp [place?, ht, hlink, hne]

end Reference
end ApiPages
