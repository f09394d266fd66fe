import ApiPages.Proofs.Options
import ApiPages.Proofs.Prose.Blocks
import ApiPages.Proofs.Render.Pieces

/-! Code blocks survive: between the fences a section shows every line of its code as it was
written, and the blocks stand apart from what is around them. -/
namespace ApiPages

namespace Render

open Markup Prose

/-- The pass over the lines of pieces writes a block for every piece that stands for an element of
kind code, as long as only the fences of pieces look like fences. -/
theorem holdsBlocks_pass {language : Text} (htidy : tidy (fence ++ language) = fence ++ language)
    {before : Text} {ps : List Piece}
    (h : ∀ l ∈ rawLines language before ps, l.isFence = false →
      isFence (Text.trim l.text) = false)
    {atStart open_ : Bool} {written : List Text}
    (hwritten : open_ = false → EndsBlank atStart written) (paragraph : List Text) :
    HoldsBlocks (fence ++ language) atStart ((ps.filterMap Piece.code?).map bodyLines)
      (written ++
        pass (.text open_ paragraph) ((rawLines language before ps).map RawLine.text)) := by
  induction ps generalizing before atStart open_ written paragraph with
  | nil => exact .none
  | cons piece rest ih =>
    cases piece with
    | text t => exact ih h hwritten paragraph
    | fenced ofCode content =>
      rw [rawLines, List.forall_mem_append, List.cons_append, List.forall_mem_cons,
        List.forall_mem_append, List.forall_mem_cons] at h
      obtain ⟨hbefore, _, hbody, _, hrest⟩ := h
      have hplain : ∀ {ls : List Text}, (∀ l ∈ ls.map RawLine.plain, l.isFence = false →
          isFence (Text.trim l.text) = false) → ∀ l ∈ ls, isFence (Text.trim l) = false :=
        fun hls l hl => hls (.plain l) (List.mem_map_of_mem hl) rfl
      obtain ⟨front, o, p, hfront, hblank⟩ := pass_plain (hplain hbefore) open_ paragraph
        ((fence ++ language) :: bodyLines content ++
          fence :: (rawLines language ['\n'] rest).map RawLine.text)
      have hlines : (rawLines language before (.fenced ofCode content :: rest)).map RawLine.text =
          Text.lines (before ++ ['\n']) ++ ((fence ++ language) :: bodyLines content ++
            fence :: (rawLines language ['\n'] rest).map RawLine.text) := by
        rw [rawLines, List.map_append, List.cons_append, List.map_cons, List.map_append,
          List.map_cons, text_plain, text_plain]
        rfl
      rw [hlines, hfront, pass_block htidy (isFence_append language) (hplain hbody),
        ← List.append_assoc, ← List.append_assoc (written ++ front)]
      have hgap := endsBlank_endParagraph (hblank atStart written hwritten) p
      -- The blank line behind this block is one that the next block may follow.
      have hbehind : HoldsBlocks (fence ++ language) false
          ((rest.filterMap Piece.code?).map bodyLines)
          ([[]] ++ pass (.text false []) ((rawLines language ['\n'] rest).map RawLine.text)) :=
        ih hrest (fun _ => Or.inr rfl) []
      cases ofCode with
      | true =>
        refine .block hgap (fun l hl => ?_) hbehind
        cases hl
        rfl
      | false =>
        have hb := hbehind.behind atStart (written ++ front ++ endParagraph o p ++
          ((fence ++ language) :: bodyLines content ++ [fence]))
        rw [List.append_assoc (written ++ front ++ _), List.append_assoc _ [fence]] at hb
        exact hb

def sectionLines (style : LinkStyle) (preferBlock : Bool) (section_ : Element) : List RawLine :=
  rawLines style.options.language [] (sectionPieces style preferBlock section_)

/-- When no line of the raw text but the fences of its code looks like a fence, the prose of a
section holds the code of its elements in document order, fenced and unchanged, between blank
lines. -/
theorem code_blocks_survive {style root language trims : Value} {options : Options}
    (hoptions : Options.of style root language trims = .ok options)
    (hfeed : '\n' ∉ options.language)
    (hruns : Text.replaceRuns (fun c => c = ' ' || c = '\t') ' ' options.language =
      options.language)
    (singleDocument preferBlock : Bool) (section_ : Element)
    (h : ∀ l ∈ sectionLines ⟨options, singleDocument⟩ preferBlock section_, l.isFence = false →
      isFence (Text.trim l.text) = false) :
    (sectionLines ⟨options, singleDocument⟩ preferBlock section_).map RawLine.text =
        Text.lines (raw ⟨options, singleDocument⟩ preferBlock (some section_)) ∧
      HoldsBlocks (fence ++ options.language) true ((codesIn section_.children).map bodyLines)
        (Text.lines (prose ⟨options, singleDocument⟩ preferBlock (some section_))) := by
  have hlines : (sectionLines ⟨options, singleDocument⟩ preferBlock section_).map RawLine.text =
      Text.lines (raw ⟨options, singleDocument⟩ preferBlock (some section_)) := by
    rw [sectionLines, text_rawLines hfeed, List.nil_append, ← spelled_sectionPieces]
  refine ⟨hlines, ?_⟩
  have htidy := tidy_opening (Options.trimEnd_language hoptions) hruns
  have hcodes : (sectionPieces ⟨options, singleDocument⟩ preferBlock section_).filterMap
      Piece.code? = codesIn section_.children :=
    code?_piecesIn _ preferBlock section_.children
  have hstart : false = false → EndsBlank true [] := fun _ => Or.inl ⟨rfl, rfl⟩
  have hpass := holdsBlocks_pass htidy h hstart []
  rw [hcodes, List.nil_append] at hpass
  rw [sectionLines] at hlines
  rw [hlines] at hpass
  refine hpass.normalize fun hn => ?_
  rw [List.append_eq_nil_iff] at hn
  exact absurd hn.1 (by decide)

def plainElement (tag text : String) (children : List Element) (tail : String) : Element :=
  ⟨tag.toList, [], text.toList, children, tail.toList⟩

/-- Remarks with code on several lines inside of a paragraph and of an element that is unknown, code
in a list, which is not shown as a block, and code that is blank. -/
def remarksWithCode : Element :=
  plainElement "remarks" "First" [
    plainElement "para" "Some " [
      plainElement "c" "a\nb" [] "",
      plainElement "note" "in a note" [
        plainElement "code" "\n  if x:\n\n\treturn  y  \n" [] " after"] ""] " and",
    plainElement "list" "" [plainElement "item" "" [plainElement "code" "z" [] ""] ""] "",
    plainElement "code" "" [] "done ."] ""

theorem code_blocks_survive_in_remarks :
    Options.of (.text FileNameStyle.verbatim.name) .null .null (.bool false) = .ok .default ∧
    (∀ l ∈ sectionLines ⟨.default, true⟩ false remarksWithCode, l.isFence = false →
      isFence (Text.trim l.text) = false) ∧
    HoldsBlocks "```csharp".toList true
      [["  if x:".toList, [], "\treturn  y  ".toList], [[]]]
      (Text.lines (prose ⟨.default, true⟩ false (some remarksWithCode))) := by
  have hoptions : Options.of (.text FileNameStyle.verbatim.name) .null .null (.bool false) =
      .ok .default := rfl
  have hlines : ∀ l ∈ sectionLines ⟨.default, true⟩ false remarksWithCode, l.isFence = false →
      isFence (Text.trim l.text) = false := by
    decide +kernel
  have hbodies : (codesIn remarksWithCode.children).map bodyLines =
      [["  if x:".toList, [], "\treturn  y  ".toList], [[]]] := by
    decide +kernel
  have hblocks := (code_blocks_survive hoptions (by decide) (by decide) true false
    remarksWithCode hlines).2
  rw [hbodies] at hblocks
  exact ⟨hoptions, hlines, hblocks⟩

end Render
end ApiPages
