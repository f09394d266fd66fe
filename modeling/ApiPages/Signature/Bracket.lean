import ApiPages.Text.Blank

/-! Brackets in signatures: splitting outside of them, and finding the partner of one. -/
namespace ApiPages.Signature

/-- The brackets that open a nested part, each with the one that closes it. -/
def bracketPairs : List (Char × Char) := [('<', '>'), ('{', '}'), ('(', ')'), ('[', ']')]

def isOpener (c : Char) : Bool := bracketPairs.any fun p => p.1 == c

def isCloser (c : Char) : Bool := bracketPairs.any fun p => p.2 == c

/-- The bracket that closes what this one opens. -/
def closer? (c : Char) : Option Char := bracketPairs.lookup c

/-- The nesting depth after one more character; a closing bracket too many leaves it at 0. -/
def depthAfter (depth : Nat) (c : Char) : Nat :=
  if isOpener c then depth + 1 else if isCloser c then depth - 1 else depth

def depth (t : Text) : Nat := t.foldl depthAfter 0

/-- The pieces between the separators at depth 0, as they stand in the text. A bracket is never a
separator. -/
def pieces (isSeparator : Char → Bool) : Nat → Text → List Text
  | _, [] => [[]]
  | depth, c :: cs =>
    if !isOpener c && !isCloser c && isSeparator c && depth == 0 then
      [] :: pieces isSeparator depth cs
    else
      match pieces isSeparator (depthAfter depth c) cs with
      | [] => [[c]]
      | piece :: rest => (c :: piece) :: rest

/-- The trimmed pieces between the separators outside all brackets. A blank text has none. -/
def splitTopLevel (isSeparator : Char → Bool) (t : Text) : List Text :=
  if Text.isBlankText t then [] else (pieces isSeparator 0 t).map Text.trim

/-- How far ahead the bracket stands that closes the last of `depth` open ones. -/
def closingOffset? (opener closer : Char) : Nat → Text → Option Nat
  | _, [] => none
  | depth, c :: cs =>
    if c = opener then (closingOffset? opener closer (depth + 1) cs).map (· + 1)
    else if c = closer then
      if depth ≤ 1 then some 0 else (closingOffset? opener closer (depth - 1) cs).map (· + 1)
    else (closingOffset? opener closer depth cs).map (· + 1)

/-- Why a partner cannot be looked for. -/
inductive BracketError where
  | outOfRange
  | notOpener
  deriving DecidableEq

def BracketError.message : BracketError → Text
  | .outOfRange => "string index out of range".toList
  | .notOpener => "substring not found".toList

/-- The characters read from a position onwards. A position below 0 counts from the end, and the
reading then goes on from the start of the text. -/
def readFrom (t : Text) (position : Int) : Text :=
  if 0 ≤ position then t.drop position.toNat
  else t.drop (t.length - position.natAbs) ++ t

/-- The position of the bracket that closes the one at `position`, if the text has it. Only
brackets of the same kind count. -/
def matchingBracket (t : Text) (position : Int) : Except BracketError (Option Int) :=
  if position < -t.length then .error .outOfRange
  else
    match readFrom t position with
    | [] => .error .outOfRange
    | opener :: rest =>
      match closer? opener with
      | none => .error .notOpener
      | some closer =>
        .ok ((closingOffset? opener closer 1 rest).map fun offset => position + 1 + offset)

/-- What stands inside the first bracket of a kind: the parts before it, between it and its
partner, and after the partner. -/
inductive Enclosed where
  /-- No such bracket. -/
  | absent
  /-- The bracket is never closed. -/
  | unclosed (before rest : Text)
  | closed (before inside after : Text)

def enclosed (opener closer : Char) (t : Text) : Enclosed :=
  match Text.cutFirst opener t with
  | none => .absent
  | some (before, rest) =>
    match closingOffset? opener closer 1 rest with
    | none => .unclosed before rest
    | some offset => .closed before (rest.take offset) (rest.drop (offset + 1))

end ApiPages.Signature
