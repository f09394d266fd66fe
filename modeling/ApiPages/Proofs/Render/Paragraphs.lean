import ApiPages.Proofs.Prose.Paragraphs
import ApiPages.Render.Content

/-! The paragraphs of a section: each is brought into normal form by itself, and so is what stands
before, between and behind them. -/
namespace ApiPages.Render

open Markup Prose

/-- A paragraph of a section, and the elements behind it. -/
structure Part where
  paragraph : Element
  behind : List Element

def Part.elements (part : Part) : List Element := part.paragraph :: part.behind

/-- The raw texts of parts in turn: what is inside the paragraph, and what is behind it. -/
def rawParts (style : LinkStyle) (pending : Bool) : List Part → List Text
  | [] => []
  | part :: parts =>
    let behind := children style (element style pending part.paragraph).2 part.behind
    raw style pending (some part.paragraph) :: (part.paragraph.tail ++ behind.1) ::
      rawParts style behind.2 parts

/-- The raw texts of a section that has these elements before its first paragraph: the text up to
there, and those of its parts. -/
def rawTexts (style : LinkStyle) (preferBlock : Bool) (text : Text) (before : List Element)
    (parts : List Part) : List Text :=
  (text ++ (children style preferBlock before).1) ::
    rawParts style (children style preferBlock before).2 parts

variable (style : LinkStyle)

private theorem children_append (pending : Bool) (xs ys : List Element) :
    (children style pending (xs ++ ys)).1 =
      (children style pending xs).1 ++ (children style (children style pending xs).2 ys).1 := by
  induction xs generalizing pending with
  | nil => rfl
  | cons x xs ih => simp only [List.cons_append, children, ih, List.append_assoc]

theorem children_cons (pending : Bool) (e : Element) (es : List Element) :
    (children style pending (e :: es)).1 =
      (element style pending e).1 ++ (e.tail ++ (children style (element style pending e).2 es).1) := by
  simp only [children, List.append_assoc]

theorem element_paragraph {e : Element} (h : Kind.ofTag e.tag = .paragraph) (pending : Bool) :
    (element style pending e).1 = block (raw style pending (some e)) := by
  obtain ⟨tag, attributes, text, inner, tail⟩ := e
  simp only [element, h, raw]

/-- The raw text of a section is its texts with blank lines between them. -/
theorem join_rawParts {parts : List Part}
    (h : ∀ part ∈ parts, Kind.ofTag part.paragraph.tag = .paragraph) (pending : Bool)
    (front : Text) :
    Text.join "\n\n".toList (front :: rawParts style pending parts) =
      front ++ (children style pending (parts.flatMap Part.elements)).1 := by
  induction parts generalizing pending front with
  | nil => exact (List.append_nil front).symm
  | cons part parts ih =>
    obtain ⟨hpart, hparts⟩ := List.forall_mem_cons.mp h
    rw [rawParts, Text.join_cons_cons, Text.join_cons_cons, ih hparts, List.flatMap_cons,
      Part.elements, List.cons_append, children]
    simp only [children_append, element_paragraph style hpart, block, List.append_assoc]

private theorem raw_eq_join {section_ : Element} {before : List Element} {parts : List Part}
    (hchildren : section_.children = before ++ parts.flatMap Part.elements)
    (h : ∀ part ∈ parts, Kind.ofTag part.paragraph.tag = .paragraph) (preferBlock : Bool) :
    raw style preferBlock (some section_) =
      Text.join "\n\n".toList (rawTexts style preferBlock section_.text before parts) := by
  rw [rawTexts, join_rawParts style h, raw, hchildren, children_append, List.append_assoc]

mutual

/-- Where no fenced block is asked for, none is asked for later. -/
theorem element_pending (e : Element) : (element style false e).2 = false := by
  obtain ⟨tag, attributes, text, inner, tail⟩ := e
  rw [element]
  cases Kind.ofTag tag with
  | paragraph => exact children_pending inner
  | other => exact children_pending inner
  | _ => rfl

private theorem children_pending (es : List Element) : (children style false es).2 = false := by
  cases es with
  | nil => rfl
  | cons e es =>
    simp only [children]
    rw [element_pending e]
    exact children_pending es

end

private theorem rawParts_false (parts : List Part) :
    rawParts style false parts = parts.flatMap fun part =>
      [raw style false (some part.paragraph),
        part.paragraph.tail ++ (children style false part.behind).1] := by
  induction parts with
  | nil => rfl
  | cons part parts ih =>
    rw [rawParts, element_pending, children_pending, ih]
    rfl

/-- A blank line keeps texts apart: the normal form of two texts is made of theirs, when the first does
not end inside of code. So the prose of a section is made of the proses of its paragraphs and of the
normal forms of what is before, between and behind them, when none of these but the last ends inside
of code. -/
theorem paragraphs_stand_apart :
    (∀ a b : Text, endsInCode a = false →
      normalize (a ++ "\n\n".toList ++ b) = paragraphs [normalize a, normalize b]) ∧
    ∀ (style : LinkStyle) (preferBlock : Bool) (section_ : Element) (before : List Element)
      (parts : List Part),
      section_.children = before ++ parts.flatMap Part.elements →
      (∀ part ∈ parts, Kind.ofTag part.paragraph.tag = .paragraph) →
      let texts := rawTexts style preferBlock section_.text before parts
      (∀ t ∈ texts.dropLast, endsInCode t = false) →
      prose style preferBlock (some section_) = paragraphs (texts.map normalize) ∧
      (preferBlock = false → texts.map normalize =
        normalize (section_.text ++ (children style false before).1) :: parts.flatMap fun part =>
          [prose style false (some part.paragraph),
            normalize (part.paragraph.tail ++ (children style false part.behind).1)]) := by
  refine ⟨fun a b h => normalize_append h b, ?_⟩
  intro style preferBlock section_ before parts hchildren hparts texts htexts
  refine ⟨?_, fun hfalse => ?_⟩
  · rw [prose, raw_eq_join style hchildren hparts, normalize_join htexts]
  · subst hfalse
    show (rawTexts style false section_.text before parts).map normalize = _
    rw [rawTexts, children_pending, rawParts_false, List.map_cons, List.map_flatMap]
    rfl

/-- Remarks with a paragraph on two lines, code, and an empty paragraph. -/
def remarksInParagraphs : Element :=
  ⟨"remarks".toList, [], "Lead ,".toList,
    [⟨"para".toList, [], "One\n two".toList, [], "\nmid".toList⟩,
      ⟨"code".toList, [], "x".toList, [], []⟩,
      ⟨"para".toList, [], [], [], " end".toList⟩], []⟩

/-- Its two paragraphs, with the code behind the first. -/
def remarksParts : List Part :=
  [⟨⟨"para".toList, [], "One\n two".toList, [], "\nmid".toList⟩,
      [⟨"code".toList, [], "x".toList, [], []⟩]⟩,
    ⟨⟨"para".toList, [], [], [], " end".toList⟩, []⟩]

theorem paragraphs_stand_apart_in_remarks :
    (endsInCode "a\n```\nb\n ```".toList = false ∧
      normalize ("a\n```\nb\n ```".toList ++ "\n\n".toList ++ "c".toList) =
        "a\n\n```\nb\n```\n\nc".toList) ∧
    (remarksInParagraphs.children = [] ++ remarksParts.flatMap Part.elements ∧
      (∀ part ∈ remarksParts, Kind.ofTag part.paragraph.tag = .paragraph) ∧
      ∀ t ∈ (rawTexts ⟨.default, false⟩ false remarksInParagraphs.text [] remarksParts).dropLast,
        endsInCode t = false) ∧
    prose ⟨.default, false⟩ false (some remarksInParagraphs) =
      "Lead,\n\nOne two\n\nmid\n\n```csharp\nx\n```\n\nend".toList := by
  have hclosed : endsInCode "a\n```\nb\n ```".toList = false := by decide +kernel
  have hchildren : remarksInParagraphs.children = [] ++ remarksParts.flatMap Part.elements := rfl
  have hparts : ∀ part ∈ remarksParts, Kind.ofTag part.paragraph.tag = .paragraph := by
    decide +kernel
  have htexts : ∀ t ∈ (rawTexts ⟨.default, false⟩ false remarksInParagraphs.text []
      remarksParts).dropLast, endsInCode t = false := by
    decide +kernel
  refine ⟨⟨hclosed, ?_⟩, ⟨hchildren, hparts, htexts⟩, ?_⟩
  · rw [paragraphs_stand_apart.1 _ "c".toList hclosed]
    decide +kernel
  · rw [(paragraphs_stand_apart.2 ⟨.default, false⟩ false remarksInParagraphs [] remarksParts
      hchildren hparts htexts).1]
    decide +kernel

end ApiPages.Render
