import ApiPages.Markup.Token
import ApiPages.Text.Loose
import ApiPages.Yaml.Cursor
import ApiPages.Yaml.Error

/-! Scalars of a YAML text: plain, quoted, literal and folded ones. -/
namespace ApiPages.Yaml

namespace ScalarText

open Cursor

/-- Folded white space: a single line break as a space, further ones as they are. -/
def foldedBreaks (first : Text) (more : List Text) : Text :=
  (if first ≠ ['\n'] then first else if more.isEmpty then [' '] else []) ++ more.flatten

/-! Plain scalars. -/

/-- The line breaks and spaces at the beginning of the lines after a plain scalar's line. Nothing
when the document ends there. -/
def plainBreaks : Nat → Cursor → Option (List Text) × Cursor
  | 0, c => (some [], c)
  | fuel + 1, c =>
    if c.isAt ' ' then plainBreaks fuel c.next
    else if c.peek?.any isBreak then
      let (b, c) := c.takeBreak
      if c.atAnySeparator then (none, c)
      else
        match plainBreaks fuel c with
        | (some more, c) => (some (b :: more), c)
        | (none, c) => (none, c)
    else (some [], c)

/-- White space inside a plain scalar as it counts in the value, and whether a line ended. -/
def plainSpaces (c : Cursor) : Text × Bool × Cursor :=
  let (spaces, c) := c.takeWhile (· = ' ')
  if c.peek?.any isBreak then
    let (first, c) := c.takeBreak
    if c.atAnySeparator then ([], true, c)
    else
      match plainBreaks (c.rest.length + 1) c with
      | (none, c) => ([], true, c)
      | (some more, c) => (foldedBreaks first more, true, c)
  else (spaces, false, c)

/-- The characters that separate the parts of collections on one line. -/
def isFlowMark (c : Char) : Bool := [',', '[', ']', '\x7b', '\x7d'].contains c

def plainRun (inFlow : Bool) : Text → Text
  | [] => []
  | c :: cs =>
    let ends :=
      isSpaceOrBreak c ||
        (c = ':' && endOr (fun d => isSpaceOrBreak d || (inFlow && isFlowMark d)) cs.head?) ||
        (inFlow && (isFlowMark c || c = '?'))
    if ends then [] else c :: plainRun inFlow cs

/-- A plain scalar, and whether a line ended behind it. Outside of flow collections its further
lines are indented at least so far. -/
def plainFrom (inFlow : Bool) (indent : Int) : Nat → Cursor → Text × Bool × Cursor
  | 0, c => ([], false, c)
  | fuel + 1, c =>
    if c.isAt '#' then ([], false, c)
    else
      let run := plainRun inFlow c.rest
      if run.isEmpty then ([], false, c)
      else
        let (spaces, ended, c) := plainSpaces (c.skip run.length)
        if spaces.isEmpty || c.isAt '#' || (!inFlow && (c.column : Int) < indent) then
          (run, ended, c)
        else
          match plainFrom inFlow indent fuel c with
          | ([], _, c) => (run, ended, c)
          | (more, endedLater, c) => (run ++ spaces ++ more, endedLater, c)

/-- A plain scalar, whether a line ended behind it, and the place where it ends. -/
def plain (inFlow : Bool) (indent : Int) (c : Cursor) : Text × Bool × Cursor :=
  plainFrom inFlow indent (c.rest.length + 1) c

/-! Quoted scalars. -/

def escapes : List (Char × Char) :=
  [('0', '\x00'), ('a', '\x07'), ('b', '\x08'), ('t', '\t'), ('\t', '\t'), ('n', '\n'),
   ('v', '\x0b'), ('f', '\x0c'), ('r', '\r'), ('e', '\x1b'), (' ', ' '), ('"', '"'),
   ('\\', '\\'), ('/', '/'), ('N', '\u0085'), ('_', '\u00a0'), ('L', '\u2028'), ('P', '\u2029')]

/-- The escapes of a number, with how many digits it has. -/
def numericEscapes : List (Char × Nat) := [('x', 2), ('u', 4), ('U', 8)]

/-- The line breaks before the next line of a quoted scalar that is not empty. -/
def quotedBreaks : Nat → Cursor → Reading (List Text × Cursor)
  | 0, _ => .error .malformed
  | fuel + 1, c =>
    if c.atAnySeparator then .error .malformed
    else
      let c := c.dropWhile fun ch => ch = ' ' || ch = '\t'
      if c.peek?.any isBreak then do
        let (b, c) := c.takeBreak
        let (more, c) ← quotedBreaks fuel c
        return (b :: more, c)
      else .ok ([], c)

/-- White space inside a quoted scalar as it counts in the value. -/
def quotedSpaces (c : Cursor) : Reading (Text × Cursor) :=
  let (spaces, c) := c.takeWhile fun ch => ch = ' ' || ch = '\t'
  match c.peek? with
  | none => .error .malformed
  | some ch =>
    if isBreak ch then do
      let (first, c) := c.takeBreak
      let (more, c) ← quotedBreaks (c.rest.length + 1) c
      return (foldedBreaks first more, c)
    else .ok (spaces, c)

/-- The number of so many hexadecimal digits at the beginning of a text. -/
def hexNumber? (size : Nat) (t : Text) : Option Nat :=
  let digits := t.take size
  if digits.length < size || !digits.all Markup.Token.isHexDigit then none
  else some (Markup.Token.numberIn 16 digits)

/-- What the escape behind a backslash stands for. An escape of a number gives the code point of that
number, also half of a surrogate pair, and two halves stay two. -/
def escape (c : Cursor) : Reading (List CodePoint × Cursor) :=
  match c.peek? with
  | none => .error .malformed
  | some ch =>
    match escapes.lookup ch, numericEscapes.lookup ch with
    | some image, _ => .ok ([.char image], c.next)
    | none, some size =>
      match hexNumber? size c.next.rest with
      | none => .error .malformed
      | some n =>
        if 0x110000 ≤ n then .error .noCharacter
        else .ok ([.ofNumber n], c.next.skip size)
    | none, none =>
      if isBreak ch then do
        let (_, c) := c.takeBreak
        let (more, c) ← quotedBreaks (c.rest.length + 1) c
        return (more.flatten.map .char, c)
      else .error .malformed

/-- The inside of a quoted scalar up to its closing quote, and the place behind it. -/
def quotedFrom (double : Bool) : Nat → Cursor → Reading (List CodePoint × Cursor)
  | 0, _ => .error .malformed
  | fuel + 1, c =>
    match c.peek? with
    | none => .error .malformed
    | some ch =>
      if !double && ch = '\'' && c.peekAt? 1 == some '\'' then do
        let (more, c) ← quotedFrom double fuel (c.skip 2)
        return (.char '\'' :: more, c)
      else if ch = (if double then '"' else '\'') then .ok ([], c.next)
      else if double && ch = '\\' then do
        let (image, c) ← escape c.next
        let (more, c) ← quotedFrom double fuel c
        return (image ++ more, c)
      else if isSpaceOrBreak ch then do
        let (spaces, c) ← quotedSpaces c
        let (more, c) ← quotedFrom double fuel c
        return (spaces.map .char ++ more, c)
      else do
        let (more, c) ← quotedFrom double fuel c.next
        return (.char ch :: more, c)

def quoted (double : Bool) (c : Cursor) : Reading (Wording × Cursor) := do
  let (points, c) ← quotedFrom double (c.rest.length + 1) c.next
  return (.ofPoints points, c)

/-! Literal and folded scalars. -/

/-- What becomes of the line breaks at the end. -/
inductive Chomping where
  | strip
  | clip
  | keep
  deriving DecidableEq

def chomping? : Option Char → Option Chomping
  | some '+' => some .keep
  | some '-' => some .strip
  | _ => none

/-- The indentation that a digit asks for, if it is one. -/
def increment? : Option Char → Option Nat
  | some ch => if ch.isDigit then some (ch.toNat - '0'.toNat) else none
  | none => none

/-- The signs behind the mark of a block scalar, in either order. -/
def blockHeader (c : Cursor) : Reading (Chomping × Option Nat × Cursor) := do
  let (chomping, increment, c) :=
    match chomping? c.peek? with
    | some chomping =>
      match increment? c.next.peek? with
      | some n => (chomping, some n, c.next.next)
      | none => (chomping, none, c.next)
    | none =>
      match increment? c.peek? with
      | some n =>
        match chomping? c.next.peek? with
        | some chomping => (chomping, some n, c.next.next)
        | none => (.clip, some n, c.next)
      | none => (.clip, none, c)
  if increment = some 0 then throw .malformed
  if !endOr (fun ch => ch = ' ' || isBreak ch) c.peek? then throw .malformed
  return (chomping, increment, c)

/-- The empty lines at the beginning of a block scalar, and its deepest column before a character
that is not a space. -/
def blockIndentation : Nat → Nat → Cursor → List Text × Nat × Cursor
  | 0, deepest, c => ([], deepest, c)
  | fuel + 1, deepest, c =>
    if c.isAt ' ' then
      let c := c.next
      blockIndentation fuel (max deepest c.column) c
    else if c.peek?.any isBreak then
      let (b, c) := c.takeBreak
      let (more, deepest, c) := blockIndentation fuel deepest c
      (b :: more, deepest, c)
    else ([], deepest, c)

def spacesUpTo (column : Nat) : Nat → Cursor → Cursor
  | 0, c => c
  | fuel + 1, c =>
    if c.column < column && c.isAt ' ' then spacesUpTo column fuel c.next else c

/-- The empty lines before the next line of a block scalar, and the place after its indentation. -/
def blockBreaks (column : Nat) : Nat → Cursor → List Text × Cursor
  | 0, c => ([], c)
  | fuel + 1, c =>
    let c := spacesUpTo column column c
    if c.peek?.any isBreak then
      let (b, c) := c.takeBreak
      let (more, c) := blockBreaks column fuel c
      (b :: more, c)
    else ([], c)

/-- The lines of a block scalar from one that is not empty, with the empty lines before it: its
value without the last line break, that break, the empty lines behind it, and the place there. -/
def blockLines (folded : Bool) (column : Nat) :
    Nat → List Text → Cursor → Text × Text × List Text × Cursor
  | 0, breaks, c => ([], [], breaks, c)
  | fuel + 1, breaks, c =>
    if c.column ≠ column || c.peek?.isNone then ([], [], breaks, c)
    else
      let startsText := !c.peek?.any fun ch => ch = ' ' || ch = '\t'
      let (line, c) := c.takeWhile fun ch => !isBreak ch
      let (lineBreak, c) := c.takeBreak
      let (more, c) := blockBreaks column (c.rest.length + 1) c
      if c.column = column && c.peek?.isSome then
        let goesOn := !c.peek?.any fun ch => ch = ' ' || ch = '\t'
        let between :=
          if folded && lineBreak = ['\n'] && startsText && goesOn then
            if more.isEmpty then [' '] else []
          else lineBreak
        let (rest, lastBreak, after, c) := blockLines folded column fuel more c
        (breaks.flatten ++ line ++ between ++ rest, lastBreak, after, c)
      else (breaks.flatten ++ line, lineBreak, more, c)

/-- A literal or folded scalar from its mark on, inside a collection of this indentation. -/
def block (folded : Bool) (indent : Int) (c : Cursor) : Reading (Text × Cursor) := do
  let (chomping, increment, c) ← blockHeader c.next
  match c.endLine? with
  | none => throw .malformed
  | some c =>
    let least := (max (indent + 1) 1).toNat
    let fuel := c.rest.length + 1
    let (breaks, column, c) :=
      match increment with
      | none =>
        let (breaks, deepest, c) := blockIndentation fuel 0 c
        (breaks, max least deepest, c)
      | some n =>
        let column := least + n - 1
        let (breaks, c) := blockBreaks column fuel c
        (breaks, column, c)
    let (value, lastBreak, after, c) := blockLines folded column fuel breaks c
    let ending :=
      match chomping with
      | .strip => []
      | .clip => lastBreak
      | .keep => lastBreak ++ after.flatten
    return (value ++ ending, c)

end ScalarText
end ApiPages.Yaml
