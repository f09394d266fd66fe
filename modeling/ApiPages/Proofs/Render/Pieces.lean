import ApiPages.Proofs.Text.Lines
import ApiPages.Render.Content

/-! The raw text of a section in pieces: running text and fenced code in turn. The pieces tell which
lines of the raw text are the fences of such code. -/
namespace ApiPages.Render

open Markup

/-- A piece of raw text: running text, or fenced code, for which an element of kind code or one of
kind inline code stands. -/
inductive Piece where
  | text (t : Text)
  | fenced (ofCode : Bool) (content : Text)

namespace Piece

def spelled (language : Text) : Piece → Text
  | .text t => t
  | .fenced _ content => block (Markdown.codeBlock language content)

/-- The content of fenced code that stands for an element of kind code. -/
def code? : Piece → Option Text
  | .fenced true content => some content
  | _ => none

end Piece

mutual

/-- The pieces of the raw text of an element. -/
def pieces (style : LinkStyle) (pending : Bool) : Element → List Piece
  | ⟨tag, attributes, text, inner, tail⟩ =>
    let e : Element := ⟨tag, attributes, text, inner, tail⟩
    match Kind.ofTag tag with
    | .inlineCode =>
      if !pending && !(Text.trim e.innerText).contains '\n' then
        [.text (Markdown.inlineCode (Text.trim e.innerText))]
      else [.fenced false e.innerText]
    | .code => [.fenced true e.innerText]
    | .paragraph =>
      .text ("\n\n".toList ++ text) :: piecesIn style pending inner ++ [.text "\n\n".toList]
    | .other => .text text :: piecesIn style pending inner
    | _ => [.text (element style pending e).1]

def piecesIn (style : LinkStyle) (pending : Bool) : List Element → List Piece
  | [] => []
  | e :: es =>
    pieces style pending e ++ .text e.tail :: piecesIn style (element style pending e).2 es

end

mutual

/-- The texts of the elements for code at and inside an element, as far as only paragraphs and
unknown elements stand around them, in document order. -/
def codes : Element → List Text
  | ⟨tag, attributes, text, inner, tail⟩ =>
    match Kind.ofTag tag with
    | .code => [Element.innerText ⟨tag, attributes, text, inner, tail⟩]
    | .paragraph => codesIn inner
    | .other => codesIn inner
    | _ => []

def codesIn : List Element → List Text
  | [] => []
  | e :: es => codes e ++ codesIn es

end

mutual

private theorem spelled_pieces (style : LinkStyle) (pending : Bool) (e : Element) :
    (pieces style pending e).flatMap (Piece.spelled style.options.language) =
      (element style pending e).1 := by
  obtain ⟨tag, attributes, text, inner, tail⟩ := e
  rw [pieces, element]
  cases Kind.ofTag tag with
  | inlineCode =>
    simp only [code]
    split <;> simp [Piece.spelled]
  | code => simp [Piece.spelled, code]
  | paragraph =>
    simp only [List.flatMap_cons, List.flatMap_append, List.flatMap_nil,
      spelled_piecesIn style pending inner, Piece.spelled, block]
    simp
  | other =>
    simp only [List.flatMap_cons, spelled_piecesIn style pending inner, Piece.spelled]
  | reference => simp [Piece.spelled]
  | parameter => simp [Piece.spelled]
  | list => simp [Piece.spelled]
  | nothing => simp [Piece.spelled]

private theorem spelled_piecesIn (style : LinkStyle) (pending : Bool) (es : List Element) :
    (piecesIn style pending es).flatMap (Piece.spelled style.options.language) =
      (children style pending es).1 := by
  cases es with
  | nil => rw [piecesIn, children, List.flatMap_nil]
  | cons e es =>
    rw [piecesIn, children, List.flatMap_append, List.flatMap_cons,
      spelled_pieces style pending e, spelled_piecesIn style _ es]
    simp [Piece.spelled]

end

mutual

/-- Of the pieces, those that stand for elements of kind code have the texts of these elements. -/
theorem code?_pieces (style : LinkStyle) (pending : Bool) (e : Element) :
    (pieces style pending e).filterMap Piece.code? = codes e := by
  obtain ⟨tag, attributes, text, inner, tail⟩ := e
  rw [pieces, codes]
  cases Kind.ofTag tag with
  | inlineCode =>
    simp only []
    split <;> rfl
  | code => rfl
  | paragraph =>
    simp only [List.cons_append, List.filterMap_cons, List.filterMap_append,
      code?_piecesIn style pending inner, Piece.code?]
    simp
  | other => simp only [List.filterMap_cons, code?_piecesIn style pending inner, Piece.code?]
  | reference => rfl
  | parameter => rfl
  | list => rfl
  | nothing => rfl

theorem code?_piecesIn (style : LinkStyle) (pending : Bool) (es : List Element) :
    (piecesIn style pending es).filterMap Piece.code? = codesIn es := by
  cases es with
  | nil => rw [piecesIn, codesIn, List.filterMap_nil]
  | cons e es =>
    rw [piecesIn, codesIn, List.filterMap_append, code?_pieces style pending e,
      List.filterMap_cons, code?_piecesIn style _ es]
    rfl

end

/-- The pieces of the raw text of what is inside a section. -/
def sectionPieces (style : LinkStyle) (preferBlock : Bool) (section_ : Element) : List Piece :=
  .text section_.text :: piecesIn style preferBlock section_.children

theorem spelled_sectionPieces (style : LinkStyle) (preferBlock : Bool) (section_ : Element) :
    (sectionPieces style preferBlock section_).flatMap (Piece.spelled style.options.language) =
      raw style preferBlock (some section_) := by
  rw [sectionPieces, List.flatMap_cons, spelled_piecesIn]
  rfl

/-- The lines between the fences: those of the code without the blank ones at its ends. Code that is
all blank has one empty line. -/
def bodyLines (content : Text) : List Text :=
  Text.lines (Text.unlines (Markdown.dropBlankEnds (Text.lines content)))

/-- A line of raw text; `isFence` tells that it opens or closes a piece of fenced code. -/
structure RawLine where
  text : Text
  isFence : Bool

def RawLine.plain (line : Text) : RawLine := ⟨line, false⟩

/-- The lines of pieces behind a text that is not ended. -/
def rawLines (language : Text) : Text → List Piece → List RawLine
  | before, [] => (Text.lines before).map .plain
  | before, .text t :: rest => rawLines language (before ++ t) rest
  | before, .fenced _ content :: rest =>
    (Text.lines (before ++ ['\n'])).map .plain ++
      (⟨Prose.fence ++ language, true⟩ :: (bodyLines content).map .plain ++
        ⟨Prose.fence, true⟩ :: rawLines language ['\n'] rest)

theorem text_plain (lines : List Text) : (lines.map RawLine.plain).map RawLine.text = lines := by
  rw [List.map_map]
  exact List.map_id lines

/-- The lines of pieces are the lines of the text that they spell. -/
theorem text_rawLines {language : Text} (hl : '\n' ∉ language) (before : Text)
    (ps : List Piece) :
    (rawLines language before ps).map RawLine.text =
      Text.lines (before ++ ps.flatMap (Piece.spelled language)) := by
  induction ps generalizing before with
  | nil => rw [rawLines, text_plain, List.flatMap_nil, List.append_nil]
  | cons piece rest ih =>
    rw [List.flatMap_cons]
    cases piece with
    | text t => rw [rawLines, ih, List.append_assoc, Piece.spelled]
    | fenced ofCode content =>
      have hopening : Text.lines (Prose.fence ++ language) = [Prose.fence ++ language] := by
        refine Text.splitOn_of_not_mem fun hm => ?_
        rcases List.mem_append.mp hm with hf | hm
        · exact absurd hf (by decide)
        · exact hl hm
      have hclosing : Text.lines Prose.fence = [Prose.fence] :=
        Text.splitOn_of_not_mem (by decide)
      have hspelled : before ++ (Piece.spelled language (.fenced ofCode content) ++
            rest.flatMap (Piece.spelled language)) =
          (before ++ ['\n']) ++ '\n' :: ((Prose.fence ++ language) ++ '\n' ::
            (Text.unlines (Markdown.dropBlankEnds (Text.lines content)) ++ '\n' ::
              (Prose.fence ++ '\n' :: (['\n'] ++ rest.flatMap (Piece.spelled language))))) := by
        simp [Piece.spelled, block, Markdown.codeBlock, Prose.fence]
      rw [hspelled, Text.lines_append (before ++ ['\n']), Text.lines_append (_ ++ language),
        Text.lines_append (Text.unlines _), Text.lines_append Prose.fence, hopening, hclosing,
        rawLines, List.map_append, List.cons_append, List.map_cons, List.map_append, List.map_cons,
        text_plain, text_plain, ih]
      rfl

end ApiPages.Render
