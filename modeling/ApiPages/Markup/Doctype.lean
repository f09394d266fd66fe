import ApiPages.Markup.Token

/-! Declarations in a document itself, in front of its root element: of entities, of attributes that
elements have without being given them, and of what is read over. -/
namespace ApiPages.Markup

/-- A piece of declarations. -/
inductive Mark where
  /-- The beginning of a declaration, with its word. -/
  | opening (word : Text)
  | closing
  /-- A comment or a processing instruction. -/
  | other
  /-- A reference to declarations that stand elsewhere. -/
  | parameter
  | percent
  /-- A name, with the mark behind it that says how often it may come. -/
  | name (name : QName) (times : Option Char)
  /-- What is made of the characters of names but is no name. -/
  | nameChars
  /-- A word behind a number sign. -/
  | hashWord (t : Text)
  | literal (t : Text)
  | openParen
  | closeParen (times : Option Char)
  | comma
  | bar
  | openBracket
  | closeBracket
  deriving DecidableEq

namespace Mark

def endsAfter (marks : List Char) (t : Text) : Bool :=
  match t with
  | [] => false
  | c :: _ => isSpace c || marks.contains c

/-- A mark that says how often something may come, and what follows it. -/
def readTimes (t : Text) : Option Char × Text :=
  match t with
  | c :: rest => if ['?', '*', '+'].contains c then (some c, rest) else (none, t)
  | [] => (none, [])

/-- Where a name or what looks like one ends. -/
def nameEnds : List Char := ['>', ')', ',', '|', '[', '%']

/-- A name, or other characters of names. A name may have a colon inside. -/
def readName? (t : Text) : Option (Mark × Text) :=
  let run := t.takeWhile fun c => isNameChar c || c = ':'
  let rest := t.dropWhile fun c => isNameChar c || c = ':'
  let name : Option QName :=
    if run.head?.any isNameStart then
      match Text.splitOn ':' run with
      | [inner] => some ⟨none, inner⟩
      | [outer, inner] => if inner.isEmpty then none else some ⟨some outer, inner⟩
      | _ => none
    else none
  match name with
  | none => if !run.isEmpty && endsAfter nameEnds rest then some (.nameChars, rest) else none
  | some name =>
    match readTimes rest with
    | (some times, rest) => some (.name name (some times), rest)
    | (none, rest) => if endsAfter nameEnds rest then some (.name name none, rest) else none

/-- What stands between quotes, and what follows it. -/
def readLiteral? (quote : Char) (t : Text) : Option (Mark × Text) := do
  let (inner, rest) ← Token.readUntil? [quote] t
  if endsAfter ['>', '%', '['] rest then some (.literal inner, rest) else none

/-- The word at the beginning of a declaration, behind its opening mark. -/
def readOpening? (t : Text) : Option (Mark × Text) :=
  let isWordChar (c : Char) : Bool := c.isAlpha || c = '_'
  let run := t.takeWhile isWordChar
  match t.dropWhile isWordChar with
  | [] => none
  | '%' :: rest =>
    if run.isEmpty || rest.head?.all fun c => isSpace c || c = '%' then none
    else some (.opening run, '%' :: rest)
  | c :: rest => if isSpace c && !run.isEmpty then some (.opening run, rest) else none

def readPercent? (t : Text) : Option (Mark × Text) :=
  if endsAfter ['%'] t then some (.percent, t)
  else do
    match ← Token.readSimpleName? t with
    | (_, ';' :: rest) => some (.parameter, rest)
    | _ => none

/-- The mark at the beginning of a text without white space in front, and what follows it. -/
def next? (t : Text) : Option (Mark × Text) :=
  match t with
  | '<' :: '?' :: rest => (Token.skipInstruction? rest).map fun rest => (.other, rest)
  | '<' :: '!' :: '-' :: '-' :: rest => (Token.skipComment? rest).map fun rest => (.other, rest)
  | '<' :: '!' :: rest => readOpening? rest
  | '>' :: rest => some (.closing, rest)
  | '"' :: rest => readLiteral? '"' rest
  | '\'' :: rest => readLiteral? '\'' rest
  | '%' :: rest => readPercent? rest
  | '#' :: rest => do
    let (t, rest) ← Token.readSimpleName? rest
    if endsAfter [')', '>', '%', '|'] rest then some (.hashWord t, rest) else none
  | '(' :: rest => some (.openParen, rest)
  | ')' :: rest =>
    match readTimes rest with
    | (some times, rest) => some (.closeParen (some times), rest)
    | (none, rest) => if endsAfter ['>', ',', '|', ')'] rest then some (.closeParen none, rest) else none
  | ',' :: rest => some (.comma, rest)
  | '|' :: rest => some (.bar, rest)
  | '[' :: rest => some (.openBracket, rest)
  | ']' :: rest => some (.closeBracket, rest)
  | t => readName? t

/-- The marks inside so many open declarations up to the end of the outermost one, and what follows
it. -/
def inside? : Nat → Nat → Text → Option (List Mark × Text)
  | 0, _, _ => none
  | fuel + 1, depth, t => do
    let (mark, rest) ← next? (Token.dropSpaces t)
    match mark, depth with
    | .closing, 0 => return ([], rest)
    | .closing, depth + 1 =>
      let (more, rest) ← inside? fuel depth rest
      return (.closing :: more, rest)
    | .opening word, depth =>
      let (more, rest) ← inside? fuel (depth + 1) rest
      return (.opening word :: more, rest)
    | mark, depth =>
      let (more, rest) ← inside? fuel depth rest
      return (mark :: more, rest)

end Mark

/-- An attribute that is declared for the elements of a name. -/
structure AttributeRule where
  element : QName
  name : QName
  /-- Spaces around the words of its value do not count. -/
  isWords : Bool
  default : Option Text

/-- What is declared for a document. -/
structure Doctype where
  /-- The first declaration of a name counts. An entity that is kept elsewhere has no text. -/
  entities : List (Text × Option Text)
  /-- The first rule for an attribute counts. -/
  attributes : List AttributeRule
  /-- Further declarations may stand elsewhere, so that an entity may be declared that is not
  known. -/
  hasMore : Bool
  /-- Declarations do not count behind a reference to others. -/
  isDeaf : Bool

namespace Doctype

/-- The words of a value, with one space between them. -/
def words (t : Text) : Text :=
  Text.join [' '] ((Text.splitOn ' ' t).filter fun word => !word.isEmpty)

def complete (doctype : Doctype) (element : QName) (given : List (QName × Text)) :
    List (QName × Text) :=
  let rules := doctype.attributes.filter fun rule => rule.element = element
  let isWords (name : QName) : Bool := (rules.find? (·.name = name)).any (·.isWords)
  let defaults := rules.filterMap fun rule => rule.default.map fun value => (rule.name, value)
  given.map (fun (name, value) => (name, if isWords name then words value else value)) ++
    defaults.filter fun (name, _) => given.all fun a => a.1 ≠ name

/-- Inside an entity it cannot be referred to. -/
def enter (doctype : Doctype) (name : Text) : Doctype :=
  { doctype with entities := (name, none) :: doctype.entities }

/-- What an entity stands for in the value of an attribute, through so many others. -/
def valueThrough : Nat → Doctype → Text → Option Text
  | 0, _, _ => none
  | depth + 1, doctype, name =>
    match doctype.entities.lookup name with
    | none => if doctype.hasMore then some [] else none
    | some none => none
    | some (some t) => do
      let inner : Scope := { Scope.empty with value := valueThrough depth (doctype.enter name) }
      let t := Text.normalizeLineEnds t
      let (value, _) ← Token.readAttributeValue? inner none (t.length + 1) t
      return value

/-- Every tag that is opened is closed, and no other is. -/
def isBalanced : Nat → List Token → Bool
  | depth, [] => depth = 0
  | depth, .opening _ _ :: rest => isBalanced (depth + 1) rest
  | 0, .closing _ :: _ => false
  | depth + 1, .closing _ :: rest => isBalanced depth rest
  | depth, _ :: rest => isBalanced depth rest

/-- What an entity stands for in content, through so many others. It is text, also where it is white
space or nothing. -/
def contentThrough : Nat → Doctype → Text → Option (List Token)
  | 0, _, _ => none
  | depth + 1, doctype, name => do
    let t := Text.normalizeLineEnds (← (doctype.entities.lookup name).join)
    let within := doctype.enter name
    let tokens ← Token.all? ⟨contentThrough depth within, valueThrough depth within, doctype.complete⟩ t
    if isBalanced 0 tokens then some (.text [] :: tokens) else none

def scope (doctype : Doctype) : Scope :=
  let depth := doctype.entities.length + 1
  ⟨contentThrough depth doctype, valueThrough depth doctype, doctype.complete⟩

/-! Declarations, each up to the mark that closes it. -/

/-- The text of an entity as it is declared: only numeric references are resolved in it. -/
def entityText? : Nat → Text → Option Text
  | 0, _ => none
  | _ + 1, [] => some []
  | fuel + 1, c :: cs =>
    if c = '%' then none
    else if c = '&' then
      match cs with
      | '#' :: rest => do
        let (number, rest) ← Text.cutFirst ';' rest
        return (← Token.numbered? number) :: (← entityText? fuel rest)
      | _ => do
        let (name, rest) ← Token.readSimpleName? cs
        match rest with
        | ';' :: rest => return '&' :: name ++ ';' :: (← entityText? fuel rest)
        | _ => none
    else (entityText? fuel cs).map (c :: ·)

/-- Letters, digits, line ends, spaces and some signs. -/
def isPublicChar (c : Char) : Bool :=
  c.isAlphanum || c = ' ' || c = '\n' || c = '\r' || "-'()+,./:=?;!*#@$_%".toList.contains c

/-- Where something is kept that is named, and the marks behind it. -/
def external? (needsSystem : Bool) : List Mark → Option (List Mark)
  | .name ⟨none, word⟩ none :: .literal first :: rest =>
    if word = "SYSTEM".toList then some rest
    else if word = "PUBLIC".toList && first.all isPublicChar then
      match rest with
      | .literal _ :: rest => some rest
      | _ => if needsSystem then none else some rest
    else none
  | _ => none

def closed? : List Mark → Option (List Mark)
  | .closing :: rest => some rest
  | _ => none

/-- A model of what an element holds, by the separators inside the parentheses that are open. -/
def model? : List (Option Mark) → Bool → List Mark → Option (List Mark)
  | [], _, .closing :: rest => some rest
  | open_, true, .openParen :: rest => model? (none :: open_) true rest
  | open_, true, .name _ _ :: rest => model? open_ false rest
  | _ :: open_, false, .closeParen _ :: rest => model? open_ false rest
  | given :: open_, false, mark :: rest =>
    if (mark = .comma || mark = .bar) && given.all (· = mark) then
      model? (some mark :: open_) true rest
    else none
  | _, _, _ => none

/-- A model of text among elements, behind the word for text. -/
def mixed? : Bool → List Mark → Option (List Mark)
  | named, .closeParen times :: .closing :: rest =>
    if times = some '*' || (times = none && !named) then some rest else none
  | _, .bar :: .name _ none :: rest => mixed? true rest
  | _, _ => none

def element? : List Mark → Option (List Mark)
  | .name _ none :: .openParen :: .hashWord t :: rest =>
    if t = "PCDATA".toList then mixed? false rest else none
  | .name _ none :: .openParen :: rest => model? [none] true rest
  | .name _ none :: .name ⟨none, word⟩ none :: rest =>
    if word = "EMPTY".toList || word = "ANY".toList then closed? rest else none
  | _ => none

def notation? : List Mark → Option (List Mark)
  | .name ⟨none, _⟩ none :: rest => external? false rest >>= closed?
  | _ => none

/-- An entity that is declared, and the marks behind its declaration. No text is asked for where
declarations do not count. -/
def entity? (isDeaf : Bool) : List Mark → Option (Option (Text × Option Text) × List Mark)
  | .percent :: .name ⟨none, _⟩ none :: .literal t :: rest => do
    if !isDeaf then let _ ← entityText? (t.length + 1) t
    return (none, ← closed? rest)
  | .percent :: .name ⟨none, _⟩ none :: rest => do
    return (none, ← external? true rest >>= closed?)
  | .name ⟨none, name⟩ none :: .literal t :: rest => do
    let t ← if isDeaf then some t else entityText? (t.length + 1) t
    return (some (name, some t), ← closed? rest)
  | .name ⟨none, name⟩ none :: rest => do
    match ← external? true rest with
    | .name ⟨none, word⟩ none :: .name ⟨none, _⟩ none :: rest =>
      if word = "NDATA".toList then return (some (name, none), ← closed? rest) else none
    | rest => return (some (name, none), ← closed? rest)
  | _ => none

/-- Alternatives up to the closing parenthesis. -/
def choices? (namesOnly : Bool) : List Mark → Option (List Mark)
  | mark :: rest =>
    let fits : Bool :=
      match mark with
      | .name name none => !namesOnly || name.space.isNone
      | .nameChars => !namesOnly
      | _ => false
    match fits, rest with
    | true, .closeParen none :: rest => some rest
    | true, .bar :: rest => choices? namesOnly rest
    | _, _ => none
  | [] => none

def wordTypes : List Text :=
  ["ID", "IDREF", "IDREFS", "ENTITY", "ENTITIES", "NMTOKEN", "NMTOKENS"].map String.toList

/-- Whether the value of a declared type is made of words, and the marks behind the type. -/
def attributeType? : List Mark → Option (Bool × List Mark)
  | .openParen :: rest => do return (true, ← choices? false rest)
  | .name ⟨none, word⟩ none :: rest =>
    if word = "CDATA".toList then some (false, rest)
    else if wordTypes.contains word then some (true, rest)
    else if word = "NOTATION".toList then
      match rest with
      | .openParen :: rest => do return (true, ← choices? true rest)
      | _ => none
    else none
  | _ => none

/-- The text of a default value, if there is one, and the marks behind it. -/
def default? : List Mark → Option (Option Text × List Mark)
  | .literal t :: rest => some (some t, rest)
  | .hashWord t :: rest =>
    if t = "IMPLIED".toList || t = "REQUIRED".toList then some (none, rest)
    else if t = "FIXED".toList then
      match rest with
      | .literal t :: rest => some (some t, rest)
      | _ => none
    else none
  | _ => none

/-- The rules for the attributes of an element. -/
def attributes? (doctype : Doctype) (element : QName) :
    Nat → List Mark → Option (Doctype × List Mark)
  | _, .closing :: rest => some (doctype, rest)
  | fuel + 1, .name name none :: rest => do
    let (isWords, rest) ← attributeType? rest
    let (default, rest) ← default? rest
    if doctype.isDeaf then attributes? doctype element fuel rest
    else
      let default ← default.mapM fun t => do
        let (value, _) ← Token.readAttributeValue? doctype.scope none (t.length + 1) t
        return if isWords then words value else value
      let isNew := doctype.attributes.all fun rule => rule.element ≠ element || rule.name ≠ name
      let rules := if isNew then [⟨element, name, isWords, default⟩] else []
      attributes? { doctype with attributes := doctype.attributes ++ rules } element fuel rest
  | _, _ => none

/-- What the declarations between brackets say, up to the closing one, which is the last mark. -/
def subset? (isComplete : Bool) : Nat → Doctype → List Mark → Option Doctype
  | 0, _, _ => none
  | _ + 1, doctype, [.closeBracket] => some doctype
  | fuel + 1, doctype, .other :: rest => subset? isComplete fuel doctype rest
  | fuel + 1, doctype, .parameter :: rest =>
    subset? isComplete fuel { doctype with hasMore := !isComplete, isDeaf := !isComplete } rest
  | fuel + 1, doctype, .opening word :: rest =>
    if word = "ENTITY".toList then do
      let (entity, rest) ← entity? doctype.isDeaf rest
      let kept := if doctype.isDeaf then [] else entity.toList
      subset? isComplete fuel { doctype with entities := doctype.entities ++ kept } rest
    else if word = "ATTLIST".toList then
      match rest with
      | .name element none :: rest => do
        let (doctype, rest) ← attributes? doctype element rest.length rest
        subset? isComplete fuel doctype rest
      | _ => none
    else if word = "ELEMENT".toList then element? rest >>= subset? isComplete fuel doctype
    else if word = "NOTATION".toList then notation? rest >>= subset? isComplete fuel doctype
    else none
  | _, _, _ => none

/-- What marks say behind the word with which the declarations of a document begin. -/
def ofMarks? (isComplete : Bool) (marks : List Mark) : Option Doctype :=
  match marks with
  | .name _ none :: rest =>
    let inner (hasMore : Bool) (rest : List Mark) : Option Doctype :=
      match rest with
      | [] => some ⟨[], [], hasMore, false⟩
      | .openBracket :: rest => subset? isComplete (rest.length + 1) ⟨[], [], hasMore, false⟩ rest
      | _ => none
    match external? true rest with
    | some rest => inner (!isComplete) rest
    | none => inner false rest
  | _ => none

/-- What a document declares at the beginning of a text, and what follows it. A document can say that
it is complete, so that declarations elsewhere do not matter. -/
def read? (isComplete : Bool) (t : Text) : Option (Doctype × Text) := do
  let (mark, rest) ← Mark.next? t
  if mark ≠ .opening "DOCTYPE".toList then failure
  let (marks, rest) ← Mark.inside? (rest.length + 1) 0 rest
  return (← ofMarks? isComplete marks, rest)

end Doctype
end ApiPages.Markup
