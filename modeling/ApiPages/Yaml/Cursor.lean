import ApiPages.Text.Basic

/-! A place in a YAML text, with its line and column. -/
namespace ApiPages.Yaml

/-- What is still to be read, and how far, on which line and in which column the reading is. -/
structure Cursor where
  rest : Text
  index : Nat
  line : Nat
  column : Nat

def isBreak (c : Char) : Bool := c = '\n' || c = '\u0085' || c = '\u2028' || c = '\u2029'

def isSpaceOrBreak (c : Char) : Bool := c = ' ' || c = '\t' || isBreak c

def isPrintable (c : Char) : Bool :=
  let n := c.toNat
  n = 0x09 || n = 0x0A || n = 0x0D || n = 0x85 || (0x20 ≤ n && n ≤ 0x7E) ||
    (0xA0 ≤ n && n ≤ 0xFFFD) || 0x10000 ≤ n

namespace Cursor

def start (t : Text) : Cursor := ⟨t, 0, 0, 0⟩

def peek? (c : Cursor) : Option Char := c.rest.head?

def peekAt? (c : Cursor) (n : Nat) : Option Char := (c.rest.drop n).head?

def isAt (c : Cursor) (ch : Char) : Bool := c.peek? == some ch

/-- The end of the text, or a character of the given kind. -/
def endOr (p : Char → Bool) : Option Char → Bool
  | none => true
  | some ch => p ch

/-- The text is read to its end, or white space of either kind comes next. -/
def atSpace (c : Cursor) : Bool := endOr isSpaceOrBreak c.peek?

def atLineEnd (c : Cursor) : Bool := endOr isBreak c.peek?

/-- One character further on. A byte order mark takes no column. -/
def next (c : Cursor) : Cursor :=
  match c.rest with
  | [] => c
  | ch :: rest =>
    if isBreak ch then ⟨rest, c.index + 1, c.line + 1, 0⟩
    else ⟨rest, c.index + 1, c.line, if ch = '\ufeff' then c.column else c.column + 1⟩

def skip : Nat → Cursor → Cursor
  | 0, c => c
  | n + 1, c => skip n c.next

/-- The longest run of characters of a kind, and the place behind it. -/
def takeWhile (p : Char → Bool) (c : Cursor) : Text × Cursor :=
  let run := c.rest.takeWhile p
  (run, c.skip run.length)

def dropWhile (p : Char → Bool) (c : Cursor) : Cursor := (c.takeWhile p).2

def dropSpaces (c : Cursor) : Cursor := c.dropWhile (· = ' ')

/-- A line break as it counts in a value, and the place behind it; nothing where there is none. -/
def takeBreak (c : Cursor) : Text × Cursor :=
  match c.peek? with
  | some ch =>
    if ch = '\n' || ch = '\u0085' then (['\n'], c.next)
    else if isBreak ch then ([ch], c.next)
    else ([], c)
  | none => ([], c)

/-- Three characters that separate documents come next, and then nothing or white space. -/
def atSeparator (mark : Char) (c : Cursor) : Bool :=
  [mark, mark, mark].isPrefixOf c.rest && endOr isSpaceOrBreak (c.peekAt? 3)

/-- A separator of documents of either kind comes next. -/
def atAnySeparator (c : Cursor) : Bool := c.atSeparator '-' || c.atSeparator '.'

/-- The rest of a line may only hold spaces and a comment; the place behind its break. -/
def endLine? (c : Cursor) : Option Cursor :=
  let c := c.dropSpaces
  let c := if c.isAt '#' then c.dropWhile fun ch => !isBreak ch else c
  if c.atLineEnd then some c.takeBreak.2 else none

end Cursor
end ApiPages.Yaml
