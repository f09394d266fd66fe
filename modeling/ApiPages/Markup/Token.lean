import ApiPages.Markup.NameChar

/-! Tokens of an XML document: tags, and the text between them with all references resolved.
Comments and processing instructions leave no token. What is declared for a document is given as a
scope. -/
namespace ApiPages.Markup

/-- A name with its prefix, as it is written. -/
structure QName where
  space : Option Text
  localName : Text
  deriving DecidableEq

/-- A piece of a document. -/
inductive Token where
  | opening (name : QName) (attributes : List (QName × Text))
  | closing (name : QName)
  /-- White space, written as it is. -/
  | space (t : Text)
  /-- Any other text. -/
  | text (t : Text)

/-- What is declared for a document: what its entities stand for, in content and in the values of
attributes, and the attributes of a tag with those that every tag of its name has. -/
structure Scope where
  content : Text → Option (List Token)
  value : Text → Option Text
  complete : QName → List (QName × Text) → List (QName × Text)

/-- Nothing is declared. -/
def Scope.empty : Scope := ⟨fun _ => none, fun _ => none, fun _ attributes => attributes⟩

/-- What a reference is made to. -/
inductive Referent where
  | char (c : Char)
  | entity (name : Text)

namespace Token

def dropSpaces (t : Text) : Text := t.dropWhile isSpace

def readSimpleName? (t : Text) : Option (Text × Text) :=
  match t with
  | [] => none
  | c :: cs =>
    if isNameStart c then some (c :: cs.takeWhile isNameChar, cs.dropWhile isNameChar) else none

/-- A name with at most one colon inside, and what follows it. -/
def readName? (t : Text) : Option (QName × Text) := do
  let (first, rest) ← readSimpleName? t
  match rest with
  | ':' :: more =>
    let (second, rest) ← readSimpleName? more
    return (⟨some first, second⟩, rest)
  | _ => return (⟨none, first⟩, rest)

/-- The text before a terminator and the text behind it, if all characters before it are allowed
in documents. -/
def readUntil? (terminator : Text) : Text → Option (Text × Text)
  | [] => none
  | c :: cs =>
    if terminator.isPrefixOf (c :: cs) then some ([], (c :: cs).drop terminator.length)
    else if isDocumentChar c then
      (readUntil? terminator cs).map fun (before, after) => (c :: before, after)
    else none

def namedCharacters : List (Text × Char) :=
  [("lt".toList, '<'), ("gt".toList, '>'), ("amp".toList, '&'), ("quot".toList, '"'),
   ("apos".toList, '\'')]

def isHexDigit (c : Char) : Bool :=
  c.isDigit || ('a' ≤ c && c ≤ 'f') || ('A' ≤ c && c ≤ 'F')

def hexDigitValue (c : Char) : Nat :=
  if c.isDigit then c.toNat - '0'.toNat
  else if 'a' ≤ c && c ≤ 'f' then c.toNat - 'a'.toNat + 10
  else c.toNat - 'A'.toNat + 10

def numberIn (base : Nat) (digits : Text) : Nat :=
  digits.foldl (fun n c => base * n + hexDigitValue c) 0

/-- The character of a number, if documents may hold it. -/
def characterOf? (n : Nat) : Option Char :=
  if h : n.isValidChar then
    let c := Char.ofNatAux n h
    if isDocumentChar c then some c else none
  else none

/-- The character of a numeric reference, behind its sign. -/
def numbered? (t : Text) : Option Char :=
  match t with
  | 'x' :: digits =>
    if digits.isEmpty || !digits.all isHexDigit then none else characterOf? (numberIn 16 digits)
  | digits =>
    if digits.isEmpty || !digits.all Char.isDigit then none else characterOf? (numberIn 10 digits)

/-- What the name between an ampersand and a semicolon refers to. -/
def referent? (name : Text) : Option Referent :=
  match name with
  | '#' :: number => (numbered? number).map .char
  | _ =>
    match namedCharacters.lookup name, readSimpleName? name with
    | some c, _ => some (.char c)
    | none, some (_, []) => some (.entity name)
    | none, _ => none

/-- What the reference behind an ampersand is made to, and what follows it. -/
def readReference? (t : Text) : Option (Referent × Text) := do
  let (name, rest) ← Text.cutFirst ';' t
  return (← referent? name, rest)

/-- An attribute value up to its closing quote, or to the end where there is none, with spaces for
white space. -/
def readAttributeValue? (scope : Scope) (quote : Option Char) : Nat → Text → Option (Text × Text)
  | 0, _ => none
  | _ + 1, [] => if quote.isNone then some ([], []) else none
  | fuel + 1, c :: cs =>
    if quote = some c then some ([], cs)
    else if c = '<' then none
    else if c = '&' then do
      let (referent, rest) ← readReference? cs
      let referred ←
        match referent with
        | .char c => some [c]
        | .entity name => scope.value name
      let (value, rest) ← readAttributeValue? scope quote fuel rest
      return (referred ++ value, rest)
    else if isDocumentChar c then do
      let (value, rest) ← readAttributeValue? scope quote fuel cs
      return ((if isSpace c then ' ' else c) :: value, rest)
    else none

/-- The end of an opening tag: whether it closes the element as well, and what follows. -/
def readTagEnd? (t : Text) : Option (Bool × Text) :=
  match t with
  | '>' :: rest => some (false, rest)
  | '/' :: '>' :: rest => some (true, rest)
  | _ => none

/-- The attributes of a tag, each behind white space, and its end. -/
def readAttributes? (scope : Scope) : Nat → Text → Option (List (QName × Text) × Bool × Text)
  | 0, _ => none
  | fuel + 1, t =>
    match readTagEnd? (dropSpaces t) with
    | some (closed, rest) => some ([], closed, rest)
    | none =>
      match t with
      | [] => none
      | c :: _ =>
        if !isSpace c then none
        else do
          let (name, rest) ← readName? (dropSpaces t)
          match dropSpaces rest with
          | '=' :: rest =>
            match dropSpaces rest with
            | [] => none
            | quote :: rest =>
              if quote = '"' || quote = '\'' then
                let (value, rest) ← readAttributeValue? scope (some quote) fuel rest
                let (more, closed, rest) ← readAttributes? scope fuel rest
                return ((name, value) :: more, closed, rest)
              else none
          | _ => none

/-- Text of which nothing but white space is written as it is. -/
def ofWritten (t : Text) : Token := if t.all isSpace then .space t else .text t

/-- Text up to the next tag or reference. It never holds the end mark of a literal section. -/
def readText? (t : Text) : Option (Text × Text) :=
  let written := t.takeWhile fun c => c ≠ '<' && c ≠ '&'
  let rest := t.dropWhile fun c => c ≠ '<' && c ≠ '&'
  if !written.all isDocumentChar then none
  else
    match readUntil? "]]>".toList written with
    | some _ => none
    | none => some (written, rest)

/-- The name behind an opening mark of a processing instruction is allowed: any but the reserved
one in any case. -/
def isInstructionTarget (name : Text) : Bool := name.map Char.toLower ≠ "xml".toList

/-- What is behind the opening mark of a processing instruction, after the instruction. -/
def skipInstruction? (t : Text) : Option Text := do
  let (target, rest) ← readSimpleName? t
  if !isInstructionTarget target then none
  else
    match rest with
    | '?' :: '>' :: rest => some rest
    | c :: _ => if isSpace c then (readUntil? "?>".toList rest).map Prod.snd else none
    | [] => none

/-- What is behind the opening mark of a comment, after the comment. Two hyphens only end it. -/
def skipComment? (t : Text) : Option Text := do
  match ← readUntil? "--".toList t with
  | (_, '>' :: rest) => some rest
  | _ => none

/-- The tokens at the beginning of a text and what follows them; the text is not empty. -/
def next? (scope : Scope) (t : Text) : Option (List Token × Text) :=
  match t with
  | '<' :: '/' :: rest => do
    let (name, rest) ← readName? rest
    match dropSpaces rest with
    | '>' :: rest => some ([.closing name], rest)
    | _ => none
  | '<' :: '?' :: rest => (skipInstruction? rest).map fun rest => ([], rest)
  | '<' :: '!' :: '-' :: '-' :: rest => (skipComment? rest).map fun rest => ([], rest)
  | '<' :: '!' :: rest => do
    let (literal, rest) ← readUntil? "]]>".toList (← Text.dropStart? "[CDATA[".toList rest)
    return ([.text literal], rest)
  | '<' :: rest => do
    let (name, rest) ← readName? rest
    let (attributes, closed, rest) ← readAttributes? scope (rest.length + 1) rest
    let opening := Token.opening name (scope.complete name attributes)
    return (if closed then [opening, .closing name] else [opening], rest)
  | '&' :: rest => do
    let (referent, rest) ← readReference? rest
    match referent with
    | .char c => return ([.text [c]], rest)
    | .entity name => return (← scope.content name, rest)
  | _ => (readText? t).map fun (written, rest) => ([ofWritten written], rest)

/-- All tokens of a text, as far as a number of steps leads. -/
def allWithin (scope : Scope) : Nat → Text → Option (List Token)
  | _, [] => some []
  | 0, _ => none
  | fuel + 1, t => do
    let (tokens, rest) ← next? scope t
    return tokens ++ (← allWithin scope fuel rest)

/-- All tokens of a text; every step takes at least one character. -/
def all? (scope : Scope) (t : Text) : Option (List Token) := allWithin scope t.length t

end Token
end ApiPages.Markup
