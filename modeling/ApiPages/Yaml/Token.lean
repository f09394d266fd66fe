import ApiPages.Yaml.Scalar

/-! Tokens of a YAML text. Indentation and simple keys are turned into marks of their own: where a
block collection begins and ends, and what is a key. -/
namespace ApiPages.Yaml

/-- A mark, a property or a scalar. -/
inductive Token where
  | versionDirective (major : Nat)
  | tagDirective (handle start : Text)
  | otherDirective
  | documentStart
  | documentEnd
  | blockSequenceStart
  | blockMappingStart
  | blockEnd
  | flowSequenceStart
  | flowSequenceEnd
  | flowMappingStart
  | flowMappingEnd
  | blockEntry
  | flowEntry
  | key
  | value
  | alias (name : Text)
  | anchor (name : Text)
  /-- A tag with its handle, unless it is written in full. -/
  | tag (handle : Option Text) (suffix : Text)
  /-- A scalar, plain or in one of the other styles. -/
  | scalar (content : Wording) (plain : Bool)
  deriving DecidableEq

/-- A place where a key may have begun: the number of its first token, and where it stands. -/
structure PossibleKey where
  token : Nat
  required : Bool
  index : Nat
  line : Nat
  column : Nat

/-- What the reading of tokens has to remember. -/
structure Lexer where
  cursor : Cursor
  tokens : List Token
  /-- How many flow collections are open. -/
  flow : Nat
  /-- The column of the innermost block collection, below 0 when there is none. -/
  indent : Int
  outerIndents : List Int
  keyAllowed : Bool
  /-- The possible keys by the flow collection in which they stand. -/
  keys : List (Nat × PossibleKey)

namespace Lexer

def start (t : Text) : Lexer := ⟨.start t, [], 0, -1, [], true, []⟩

def inFlow (l : Lexer) : Bool := l.flow != 0

def column (l : Lexer) : Int := l.cursor.column

def emit (token : Token) (l : Lexer) : Lexer := { l with tokens := l.tokens ++ [token] }

def moveTo (c : Cursor) (l : Lexer) : Lexer := { l with cursor := c }

def allowKey (allowed : Bool) (l : Lexer) : Lexer := { l with keyAllowed := allowed }

/-- The longest key without a mark of its own. -/
def keyLimit : Nat := 1024

def isStale (l : Lexer) (k : PossibleKey) : Bool :=
  k.line != l.cursor.line || keyLimit < l.cursor.index - k.index

/-- Keys that can no longer be keys are forgotten; a key that has to be one must not be. -/
def dropStaleKeys (l : Lexer) : Reading Lexer :=
  if l.keys.any fun (_, k) => l.isStale k && k.required then .error .malformed
  else .ok { l with keys := l.keys.filter fun (_, k) => !l.isStale k }

/-- The possible key of the innermost flow collection is forgotten. -/
def dropKey (l : Lexer) : Reading Lexer :=
  match l.keys.lookup l.flow with
  | none => .ok l
  | some k =>
    if k.required then .error .malformed
    else .ok { l with keys := l.keys.filter fun (level, _) => level != l.flow }

def noteKey (l : Lexer) : Reading Lexer :=
  if !l.keyAllowed then .ok l
  else do
    let required := !l.inFlow && l.indent == l.column
    let l ← l.dropKey
    let c := l.cursor
    return { l with
      keys := (l.flow, ⟨l.tokens.length, required, c.index, c.line, c.column⟩) :: l.keys }

/-- The block collections that are indented deeper than a column end. -/
def closeBlocks (column : Int) : List Int → Lexer → Lexer
  | [], l => l
  | outer :: rest, l =>
    if column < l.indent then
      closeBlocks column rest (emit .blockEnd { l with indent := outer, outerIndents := rest })
    else l

/-- Outside of flow collections, the block collections that are indented deeper end. -/
def unwind (column : Int) (l : Lexer) : Lexer :=
  if l.inFlow then l else closeBlocks column l.outerIndents l

/-- A block collection begins in a column, if that is deeper than the innermost one. -/
def openBlock? (column : Int) (l : Lexer) : Option Lexer :=
  if l.indent < column then
    some { l with indent := column, outerIndents := l.indent :: l.outerIndents }
  else none

/-- A block collection that begins in this column, with its mark behind all others. -/
def openBlock (mark : Token) (l : Lexer) : Lexer :=
  match l.openBlock? l.column with
  | some opened => opened.emit mark
  | none => l

/-- The place of the next token, past spaces, comments and line breaks. -/
def skipBlanks : Nat → Lexer → Lexer
  | 0, l => l
  | fuel + 1, l =>
    let c := l.cursor.dropSpaces
    let c := if c.isAt '#' then c.dropWhile fun ch => !isBreak ch else c
    if c.peek?.any isBreak then
      skipBlanks fuel { l with cursor := c.next, keyAllowed := l.keyAllowed || !l.inFlow }
    else { l with cursor := c }

/-! Directives, anchors and tags. -/

/-- Letters, digits, hyphens and underscores. -/
def isNameChar (c : Char) : Bool := c.isAlphanum || c = '-' || c = '_'

def isTagChar (c : Char) : Bool := c.isAlphanum || "-;/?:@&=+$,_.!~*'()[]%".toList.contains c

/-- The end of the text, a space or a line break comes next. -/
def atWordEnd (c : Cursor) : Bool := Cursor.endOr (fun ch => ch = ' ' || isBreak ch) c.peek?

def percentBytes? : Nat → Cursor → Option (List UInt8 × Cursor)
  | 0, _ => none
  | fuel + 1, c =>
    if c.isAt '%' then do
      let n ← ScalarText.hexNumber? 2 c.next.rest
      let (more, c) ← percentBytes? fuel (c.skip 3)
      return (UInt8.ofNat n :: more, c)
    else some ([], c)

def tagText? : Nat → Cursor → Option (Text × Cursor)
  | 0, _ => none
  | fuel + 1, c =>
    match c.peek? with
    | none => some ([], c)
    | some ch =>
      if ch = '%' then do
        let (bytes, c) ← percentBytes? (c.rest.length + 1) c
        let image ← (String.fromUTF8? ⟨bytes.toArray⟩).map String.toList
        let (more, c) ← tagText? fuel c
        return (image ++ more, c)
      else if isTagChar ch then do
        let (more, c) ← tagText? fuel c.next
        return (ch :: more, c)
      else some ([], c)

def tagUri? (c : Cursor) : Option (Text × Cursor) := do
  let (t, after) ← tagText? (c.rest.length + 1) c
  if after.index = c.index then none else some (t, after)

/-- The handle of a tag: an exclamation mark, or a name between two. -/
def tagHandle? (c : Cursor) : Option (Text × Cursor) :=
  if !c.isAt '!' then none
  else if c.next.isAt ' ' then some (['!'], c.next)
  else
    let (name, after) := c.next.takeWhile isNameChar
    if after.isAt '!' then some ('!' :: name ++ ['!'], after.next) else none

def number? (c : Cursor) : Option (Nat × Cursor) :=
  let (digits, c) := c.takeWhile Char.isDigit
  if digits.isEmpty then none else some (Markup.Token.numberIn 10 digits, c)

def directive? (c : Cursor) : Option (Token × Cursor) := do
  let (name, c) := c.next.takeWhile isNameChar
  if name.isEmpty || !atWordEnd c then failure
  let (token, c) ←
    if name = "YAML".toList then do
      let (major, c) ← number? c.dropSpaces
      if !c.isAt '.' then failure
      let (_, c) ← number? c.next
      if !atWordEnd c then failure
      pure (Token.versionDirective major, c)
    else if name = "TAG".toList then do
      let (handle, c) ← tagHandle? c.dropSpaces
      if !c.isAt ' ' then failure
      let (start, c) ← tagUri? c.dropSpaces
      if !atWordEnd c then failure
      pure (Token.tagDirective handle start, c)
    else pure (Token.otherDirective, c.dropWhile fun ch => !isBreak ch)
  return (token, ← c.endLine?)

def anchorName? (c : Cursor) : Option (Text × Cursor) :=
  let (name, c) := c.next.takeWhile isNameChar
  let ends (ch : Char) : Bool := isSpaceOrBreak ch || "?:,]\x7d%@\x60".toList.contains ch
  if name.isEmpty || !Cursor.endOr ends c.peek? then none else some (name, c)

def tag? (c : Cursor) : Option (Token × Cursor) := do
  let (token, c) ←
    if c.next.isAt '<' then do
      let (suffix, c) ← tagUri? (c.skip 2)
      if !c.isAt '>' then failure
      pure (Token.tag none suffix, c.next)
    else if c.next.atSpace then pure (Token.tag none ['!'], c.next)
    else do
      let word := c.next.rest.takeWhile fun ch => ch ≠ ' ' && !isBreak ch
      let (handle, c) ← if word.contains '!' then tagHandle? c else some (['!'], c.next)
      let (suffix, c) ← tagUri? c
      pure (Token.tag (some handle) suffix, c)
  if atWordEnd c then some (token, c) else none

def orMalformed {α : Type} (found : Option α) : Reading α :=
  match found with
  | some a => .ok a
  | none => .error .malformed

/-! One token after another. -/

/-- A separator of documents or a directive: all blocks end. -/
def atTop (token : Token) (c : Cursor) (l : Lexer) : Reading Lexer := do
  let l ← (l.unwind (-1)).dropKey
  return ((l.allowKey false).emit token).moveTo c

def openFlow (token : Token) (l : Lexer) : Reading Lexer := do
  let l ← l.noteKey
  return ({ l with flow := l.flow + 1, keyAllowed := true }.emit token).moveTo l.cursor.next

def closeFlow (token : Token) (l : Lexer) : Reading Lexer := do
  let l ← l.dropKey
  return ({ l with flow := l.flow - 1, keyAllowed := false }.emit token).moveTo l.cursor.next

def flowEntry (l : Lexer) : Reading Lexer := do
  let l ← (l.allowKey true).dropKey
  return (l.emit .flowEntry).moveTo l.cursor.next

/-- The mark of an entry of a block sequence, or of a key, outside of flow collections where a key
is allowed. -/
def blockMark (start mark : Token) (allowed : Bool) (l : Lexer) : Reading Lexer := do
  if !l.inFlow && !l.keyAllowed then throw .malformed
  let l := if l.inFlow then l else l.openBlock start
  let l ← (l.allowKey allowed).dropKey
  return (l.emit mark).moveTo l.cursor.next

/-- The mark of a value. If a key may have begun before, it gets its mark now, and the mapping that
begins with it too. -/
def valueMark (l : Lexer) : Reading Lexer :=
  match l.keys.lookup l.flow with
  | some k =>
    let l := { l with
      keys := l.keys.filter fun (level, _) => level != l.flow
      tokens := l.tokens.insertIdx k.token .key }
    let l :=
      if l.inFlow then l
      else
        match l.openBlock? k.column with
        | some opened =>
          { opened with tokens := opened.tokens.insertIdx k.token .blockMappingStart }
        | none => l
    .ok (((l.allowKey false).emit .value).moveTo l.cursor.next)
  | none => blockMark .blockMappingStart .value (!l.inFlow) l

/-- A token that may be a key, and that no key follows. -/
def keyed (found : Reading (Token × Cursor)) (l : Lexer) : Reading Lexer := do
  let l ← l.noteKey
  let (token, c) ← found
  return ((l.allowKey false).emit token).moveTo c

def startsPlain (l : Lexer) (ch : Char) : Bool :=
  (!isSpaceOrBreak ch && !"-?:,[]\x7b\x7d#&*!|>'\"%@\x60".toList.contains ch) ||
    (!Cursor.endOr isSpaceOrBreak (l.cursor.peekAt? 1) &&
      (ch = '-' || (!l.inFlow && (ch = '?' || ch = ':'))))

def token (ch : Char) (l : Lexer) : Reading Lexer :=
  let c := l.cursor
  let spaced := Cursor.endOr isSpaceOrBreak (c.peekAt? 1)
  let atMargin := c.column = 0
  if ch = '%' && atMargin then do
    let (directive, c) ← orMalformed (directive? c)
    l.atTop directive c
  else if atMargin && c.atSeparator '-' then l.atTop .documentStart (c.skip 3)
  else if atMargin && c.atSeparator '.' then l.atTop .documentEnd (c.skip 3)
  else if ch = '[' then l.openFlow .flowSequenceStart
  else if ch = '\x7b' then l.openFlow .flowMappingStart
  else if ch = ']' then l.closeFlow .flowSequenceEnd
  else if ch = '\x7d' then l.closeFlow .flowMappingEnd
  else if ch = ',' then l.flowEntry
  else if ch = '-' && spaced then l.blockMark .blockSequenceStart .blockEntry true
  else if ch = '?' && (l.inFlow || spaced) then l.blockMark .blockMappingStart .key (!l.inFlow)
  else if ch = ':' && (l.inFlow || spaced) then l.valueMark
  else if ch = '*' then
    l.keyed (orMalformed ((anchorName? c).map fun (name, c) => (.alias name, c)))
  else if ch = '&' then
    l.keyed (orMalformed ((anchorName? c).map fun (name, c) => (.anchor name, c)))
  else if ch = '!' then l.keyed (orMalformed (tag? c))
  else if (ch = '|' || ch = '>') && !l.inFlow then do
    let l ← (l.allowKey true).dropKey
    let (t, c) ← ScalarText.block (ch = '>') l.indent c
    return (l.emit (.scalar (.text t) false)).moveTo c
  else if ch = '\'' || ch = '"' then
    l.keyed ((ScalarText.quoted (ch = '"') c).map fun (w, c) => (.scalar w false, c))
  else if l.startsPlain ch then do
    let l ← l.noteKey
    let (t, ended, c) := ScalarText.plain l.inFlow (l.indent + 1) c
    return ((l.allowKey ended).emit (.scalar (.text t) true)).moveTo c
  else .error .malformed

/-- All tokens from a place on, as far as a number of steps leads. -/
def run : Nat → Lexer → Reading (List Token)
  | 0, _ => .error .malformed
  | fuel + 1, l => do
    let l := l.skipBlanks (l.cursor.rest.length + 1)
    let l ← l.dropStaleKeys
    let l := l.unwind l.column
    match l.cursor.peek? with
    | none =>
      let l ← (l.unwind (-1)).dropKey
      return l.tokens
    | some ch => run fuel (← l.token ch)

end Lexer

/-- All tokens of a text; each takes at least one character. -/
def Token.all (t : Text) : Reading (List Token) :=
  if !t.all isPrintable then .error .malformed
  else
    let body := if t.head? = some '\ufeff' then t.tail else t
    Lexer.run (t.length + 1) (Lexer.start body)

end ApiPages.Yaml
