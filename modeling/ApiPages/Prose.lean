import ApiPages.Text.Blank
import ApiPages.Text.Digit

/-! Normal form of prose: paragraphs on one line each, one blank line between blocks, and fenced
code left as it is. -/
namespace ApiPages.Prose

/-- The marker that opens and closes fenced code. -/
def fence : Text := "```".toList

/-- The trimmed line opens or closes fenced code. -/
def isFence (line : Text) : Bool := fence.isPrefixOf line

/-- A line outside of code with single spaces for runs of spaces and tabs, and none at its ends. -/
def tidy (line : Text) : Text :=
  Text.trim (Text.replaceRuns (fun c => c = ' ' || c = '\t') ' ' line)

/-- Punctuation that follows a word without a space. -/
def isTight (c : Char) : Bool := ['.', ',', ';', ':', ')', ']'].contains c

/-- The text without spaces directly before such punctuation. -/
def tighten : Text → Text
  | [] => []
  | c :: cs =>
    let rest := tighten cs
    if c = ' ' && rest.head?.any isTight then rest else c :: rest

/-- A number, a point and a space begin the line. -/
def startsNumbered (line : Text) : Bool :=
  !(line.takeWhile Text.isDigit).isEmpty &&
    ['.', ' '].isPrefixOf (line.dropWhile Text.isDigit)

/-- The line is a list item or a table row, so it never joins the line before. -/
def startsBlock : Text → Bool
  | '|' :: _ => true
  | '-' :: ' ' :: _ => true
  | '*' :: ' ' :: _ => true
  | '+' :: ' ' :: _ => true
  | line => startsNumbered line

/-- The lines of a paragraph as one line, if there are any. -/
def paragraphLines (paragraph : List Text) : List Text :=
  if paragraph.isEmpty then [] else [tighten (Text.join [' '] paragraph)]

/-- Where a pass over the lines stands. -/
inductive State where
  /-- Inside fenced code. -/
  | code
  /-- Outside of it, with the lines of the paragraph so far. `open_` tells that a line that is not
  blank was written last, so that a block after it needs a blank line in between. -/
  | text (open_ : Bool) (paragraph : List Text)

/-- The paragraph so far, and the blank line that ends it if anything was written before. -/
def endParagraph (open_ : Bool) (paragraph : List Text) : List Text :=
  paragraphLines paragraph ++ if open_ || !paragraph.isEmpty then [[]] else []

/-- The lines that a pass writes from a state on. Code that is not closed is closed at the end. -/
def pass : State → List Text → List Text
  | .code, [] => [fence]
  | .text _ paragraph, [] => paragraphLines paragraph
  | .code, line :: lines =>
    if isFence (Text.trim line) then Text.trim line :: [] :: pass (.text false []) lines
    else line :: pass .code lines
  | .text open_ paragraph, line :: lines =>
    let tidied := tidy line
    if isFence tidied then endParagraph open_ paragraph ++ tidied :: pass .code lines
    else if tidied.isEmpty then endParagraph open_ paragraph ++ pass (.text false []) lines
    else if startsBlock tidied then
      paragraphLines paragraph ++ pass (.text (open_ || !paragraph.isEmpty) [tidied]) lines
    else pass (.text open_ (paragraph ++ [tidied])) lines

def dropEmptyEnds (lines : List Text) : List Text :=
  ((lines.dropWhile List.isEmpty).reverse.dropWhile List.isEmpty).reverse

def normalize (t : Text) : Text :=
  Text.unlines (dropEmptyEnds (pass (.text false []) (Text.lines t)))

end ApiPages.Prose
