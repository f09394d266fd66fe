import ApiPages.Text.Quoted

/-! Texts that were set by the numbers of their code points, so that halves of surrogate pairs may stand in
them, which are no characters. -/
namespace ApiPages

/-- A character, or half of a surrogate pair. -/
inductive CodePoint where
  | char (c : Char)
  | half (h : Fin 0x800)
  deriving DecidableEq

namespace CodePoint

def number : CodePoint → Nat
  | char c => c.toNat
  | half h => 0xD800 + h.val

/-- The code point of a number, up to the last one. -/
def ofNumber (n : Nat) : CodePoint :=
  if n.isValidChar then char (Char.ofNat n) else half (Fin.ofNat 0x800 (n - 0xD800))

def char? : CodePoint → Option Char
  | char c => some c
  | half _ => none

def half? : CodePoint → Option (Fin 0x800)
  | char _ => none
  | half h => some h

/-- The escape of half of a pair. -/
def escape (h : Fin 0x800) : Text := '\\' :: 'u' :: Text.hexPadded 4 (half h).number

/-- The character, or the escape of half of a pair. -/
def escaped : CodePoint → Text
  | char c => [c]
  | half h => escape h

/-- Whether one row comes before or with another, by the first number in which they differ. -/
def le : List CodePoint → List CodePoint → Bool
  | [], _ => true
  | _ :: _, [] => false
  | a :: as, b :: bs => a.number < b.number || (a == b && le as bs)

end CodePoint

/-- A text with half of a pair in it: what stands before the first half, that half, and what stands behind
it. -/
structure Loose where
  before : Text
  half : Fin 0x800
  behind : List CodePoint
  deriving DecidableEq

namespace Loose

def points (t : Loose) : List CodePoint := t.before.map .char ++ .half t.half :: t.behind

/-- Such characters are dropped at both ends. -/
def trimBoth (p : Char → Bool) (t : Loose) : Loose :=
  { t with
    before := t.before.dropWhile p
    behind := (t.behind.reverse.dropWhile fun point => point.char?.any p).reverse }

/-- The text with escapes for halves of pairs. -/
def escaped (t : Loose) : Text := t.points.flatMap CodePoint.escaped

/-- The text between quotes, with escapes where it needs them. -/
def quoted (t : Loose) : Text :=
  let quote := Text.quoteFor (t.points.filterMap CodePoint.char?)
  let shown : List Text := t.points.map fun point =>
    match point with
    | .char c => Text.quotedChar quote c
    | .half h => CodePoint.escape h
  quote :: shown.flatten ++ [quote]

end Loose

/-- A text that was set, with or without halves of pairs. -/
inductive Wording where
  | text (t : Text)
  | loose (t : Loose)
  deriving DecidableEq

namespace Wording

def points : Wording → List CodePoint
  | text t => t.map .char
  | loose t => t.points

def ofPoints : List CodePoint → Wording
  | [] => text []
  | .half h :: rest => loose ⟨[], h, rest⟩
  | .char c :: rest =>
    match ofPoints rest with
    | text t => text (c :: t)
    | loose t => loose { t with before := c :: t.before }

def isEmpty : Wording → Bool
  | text t => t.isEmpty
  | loose _ => false

def trimBoth (p : Char → Bool) : Wording → Wording
  | text t => text (Text.trimBoth p t)
  | loose t => loose (t.trimBoth p)

/-- The text, if it has no halves of pairs. -/
def text? : Wording → Option Text
  | text t => some t
  | loose _ => none

def escaped : Wording → Text
  | text t => t
  | loose t => t.escaped

end Wording
end ApiPages
