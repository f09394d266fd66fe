import ApiPages.Text.Basic
import ApiPages.Text.CharRange

/-! Blank characters, and the cuts made at them. Blank are the characters with the Unicode
property White_Space and the four separators U+001C to U+001F. -/
namespace ApiPages.Text

def blankRanges : List CharRange :=
  [
   (0x9, 0xD), (0x1C, 0x20), (0x85, 0x85), (0xA0, 0xA0), (0x1680, 0x1680), (0x2000, 0x200A),
   (0x2028, 0x2029), (0x202F, 0x202F), (0x205F, 0x205F), (0x3000, 0x3000)]

def isBlank (c : Char) : Bool := CharRange.anyHolds blankRanges c

def trim (t : Text) : Text := trimBoth isBlank t

def trimEnd (t : Text) : Text := dropEndWhile isBlank t

def isBlankText (t : Text) : Bool := t.all isBlank

/-- The words from a place on, with the characters of the word so far in reverse. -/
def wordsFrom : Text → Text → List Text
  | [], [] => []
  | [], word => [word.reverse]
  | c :: cs, word =>
    if isBlank c then
      if word.isEmpty then wordsFrom cs [] else word.reverse :: wordsFrom cs []
    else wordsFrom cs (c :: word)

/-- The maximal runs of characters that are not blank. -/
def words (t : Text) : List Text := wordsFrom t []

/-- Every run of blank characters becomes one space, and none stays at an end. -/
def collapse (t : Text) : Text := join [' '] (words t)

example : isBlank ' ' && isBlank '\t' && isBlank '\n' && isBlank '\u00a0' = true := by decide

end ApiPages.Text
