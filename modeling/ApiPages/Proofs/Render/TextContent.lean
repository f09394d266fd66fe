import ApiPages.Proofs.Prose.CodeLines
import ApiPages.Render.Content

/-! Text content: prose shows every visible character of a text, once and in order, and so does the
prose of a section that has only paragraphs and unknown elements inside. -/
namespace ApiPages.Render

open Markup Prose

private theorem innerTexts_cons (e : Element) (es : List Element) :
    Element.innerTexts (e :: es) = e.innerText ++ e.tail ++ Element.innerTexts es := by
  obtain ⟨tag, attributes, text, inner, tail⟩ := e
  rfl

mutual

/-- The element and all inside it are paragraphs or elements that are unknown. -/
def onlyText : Element → Bool
  | ⟨tag, _, _, inner, _⟩ => [Kind.paragraph, Kind.other].contains (Kind.ofTag tag) && onlyTextIn inner

def onlyTextIn : List Element → Bool
  | [] => true
  | e :: es => onlyText e && onlyTextIn es

end

mutual

private theorem visible_element (style : LinkStyle) (pending : Bool) {e : Element}
    (h : onlyText e = true) :
    Text.visible (element style pending e).1 = Text.visible e.innerText := by
  obtain ⟨tag, attributes, text, inner, tail⟩ := e
  rw [onlyText, Bool.and_eq_true] at h
  obtain ⟨hkind, hinner⟩ := h
  rw [element, Element.innerText, Text.visible_append]
  cases hk : Kind.ofTag tag with
  | paragraph =>
    have hbreak : Text.visible "\n\n".toList = [] := by decide
    simp only [block, Text.visible_append, hbreak, visible_children style pending hinner]
    simp
  | other => simp only [Text.visible_append, visible_children style pending hinner]
  | _ => simp [hk] at hkind

private theorem visible_children (style : LinkStyle) (pending : Bool) {es : List Element}
    (h : onlyTextIn es = true) :
    Text.visible (children style pending es).1 = Text.visible (Element.innerTexts es) := by
  cases es with
  | nil => rfl
  | cons e es =>
    rw [onlyTextIn, Bool.and_eq_true] at h
    rw [children, innerTexts_cons]
    simp only [Text.visible_append, visible_element style pending h.1,
      visible_children style _ h.2]

end

/-- The raw text of such a section has the visible characters of its text content. -/
theorem visible_raw (style : LinkStyle) (preferBlock : Bool) {section_ : Element}
    (h : onlyTextIn section_.children = true) :
    Text.visible (raw style preferBlock (some section_)) = Text.visible section_.innerText := by
  obtain ⟨tag, attributes, text, inner, tail⟩ := section_
  rw [raw, Element.innerText, Text.visible_append, Text.visible_append, visible_children _ _ h]

/-- No visible character is lost, added or moved by the normal form of a text, but for a fence that
closes code at the end, and every line of code is one of its lines. The same holds for the prose of a
section with only paragraphs and unknown elements inside and its text content. -/
theorem visible_characters_are_kept :
    (∀ t : Text, Text.visible (normalize t) =
      Text.visible t ++ if endsInCode t then fence else []) ∧
    (∀ t : Text, (codeLines false (Text.lines t)).Sublist (Text.lines (normalize t))) ∧
    ∀ (style : LinkStyle) (preferBlock : Bool) (section_ : Element),
      onlyTextIn section_.children = true →
      Text.visible (prose style preferBlock (some section_)) =
        Text.visible section_.innerText ++
          if endsInCode (raw style preferBlock (some section_)) then fence else [] := by
  refine ⟨visible_normalize, codeLines_sublist_normalize, ?_⟩
  intro style preferBlock section_ h
  rw [prose, visible_normalize, visible_raw style preferBlock h]

/-- A summary with a paragraph in which code begins that is never closed. -/
def summaryOpenCode : Element :=
  ⟨"summary".toList, [], "One ,".toList,
    [⟨"para".toList, [], "two\n```".toList,
      [⟨"note".toList, [], "three  ".toList, [], "four".toList⟩], " five".toList⟩], []⟩

theorem visible_characters_are_kept_in_open_code :
    onlyTextIn summaryOpenCode.children = true ∧
    endsInCode (raw ⟨.default, false⟩ false (some summaryOpenCode)) = true ∧
    prose ⟨.default, false⟩ false (some summaryOpenCode) =
      "One,\n\ntwo\n\n```three four\n\n five\n```".toList ∧
    Text.visible (prose ⟨.default, false⟩ false (some summaryOpenCode)) =
      "One,two```threefourfive```".toList := by
  have hchildren : onlyTextIn summaryOpenCode.children = true := by decide +kernel
  have hopen : endsInCode (raw ⟨.default, false⟩ false (some summaryOpenCode)) = true := by
    decide +kernel
  refine ⟨hchildren, hopen, by decide +kernel, ?_⟩
  rw [visible_characters_are_kept.2.2 ⟨.default, false⟩ false summaryOpenCode hchildren, hopen]
  decide +kernel

end ApiPages.Render
