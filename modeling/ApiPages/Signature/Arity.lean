import ApiPages.Signature.Alias
import ApiPages.Text.DigitLimit

/-! Arity markers: backticks and digits that count generic parameters after a name, or name one
when they stand alone. -/
namespace ApiPages.Signature

/-- A run of backticks with the decimal digits behind it. -/
structure Marker where
  ticks : Nat
  digits : Text

namespace Marker

def length (m : Marker) : Nat := m.ticks + m.digits.length

/-- The number that the digits spell, however many they are. Where it is read or written on the way to a
text, the rule checks it against `Text.digitLimit`. -/
def value (m : Marker) : Nat := Text.digitsValue m.digits

/-- The marker that the text begins with: all its backticks, and at least one digit. -/
def read? (t : Text) : Option Marker :=
  let ticks := t.takeWhile (· = '`')
  let digits := (t.dropWhile (· = '`')).takeWhile Text.isDigit
  if ticks.isEmpty || digits.isEmpty then none else some ⟨ticks.length, digits⟩

end Marker

/-- Which markers are replaced, by the character before and the text behind, and with what. -/
structure MarkerRule where
  applies : Option Char → Marker → Text → Bool
  image : Marker → Text
  /-- Whether the numbers in the image can be read and written. -/
  check : Marker → Except Text.DigitError Unit := fun _ => .ok ()

namespace MarkerRule

/-- The marker at the beginning of a text, if the rule applies to it. -/
def find? (rule : MarkerRule) (before : Option Char) (t : Text) : Option Marker :=
  (Marker.read? t).filter fun m => rule.applies before m (t.drop m.length)

/-- The rule carried out from a place on: `skip` characters were already replaced, and `before` is
the character in front of the place. -/
def applyFrom (rule : MarkerRule) : Nat → Option Char → Text → Text
  | _, _, [] => []
  | skip + 1, _, c :: cs => rule.applyFrom skip (some c) cs
  | 0, before, c :: cs =>
    match rule.find? before (c :: cs) with
    | some m => rule.image m ++ rule.applyFrom (m.length - 1) (some c) cs
    | none => c :: rule.applyFrom 0 (some c) cs

/-- The rule carried out on every marker, from left to right. -/
def apply (rule : MarkerRule) (t : Text) : Text := rule.applyFrom 0 none t

/-- The rule carried out from a place on, as far as there are no numbers beyond the limit. -/
def attemptFrom (rule : MarkerRule) : Nat → Option Char → Text → Except Text.DigitError Text
  | _, _, [] => return []
  | skip + 1, _, c :: cs => rule.attemptFrom skip (some c) cs
  | 0, before, c :: cs =>
    match rule.find? before (c :: cs) with
    | some m => do
      rule.check m
      return rule.image m ++ (← rule.attemptFrom (m.length - 1) (some c) cs)
    | none => return c :: (← rule.attemptFrom 0 (some c) cs)

def attempt (rule : MarkerRule) (t : Text) : Except Text.DigitError Text := rule.attemptFrom 0 none t

end MarkerRule

/-- The character before belongs to a name. -/
def afterName (before : Option Char) : Bool := before.any isWordChar

/-- A generic parameter by its number, counted from 1. -/
def parameterName (n : Nat) : Text := 'T' :: Text.ofNat n

/-- A list of that many generic parameters in angle brackets. -/
def parameterNames (count : Nat) : Text :=
  '<' :: Text.join [','] ((List.range count).map fun i => parameterName (i + 1)) ++ ['>']

/-- One or two backticks that stand alone name a parameter, counted from 0. -/
def placeholderRule : MarkerRule where
  applies before m _ := !afterName before && before != some '`' && m.ticks ≤ 2
  image m := parameterName (m.value + 1)
  check m := do
    Text.checkReading m.digits
    Text.checkWriting (m.value + 1)

/-- A marker directly before explicit arguments says nothing new. -/
def redundantRule : MarkerRule where
  applies before m rest := afterName before && m.ticks ≤ 2 && rest.head? == some '<'
  image _ := []

def arityRule : MarkerRule where
  applies before m _ := afterName before && m.ticks ≤ 2
  image m := parameterNames m.value
  check m := Text.checkReading m.digits

/-- Any marker, wherever it stands and however many backticks it has, is left out. -/
def dropRule : MarkerRule where
  applies _ _ _ := true
  image _ := []

/-- Markers replaced with parameter names: first those that stand alone, then those before explicit
arguments, then the rest. This is what comes out when no number is beyond the limit. -/
def expandArity (t : Text) : Text :=
  arityRule.apply (redundantRule.apply (placeholderRule.apply t))

/-- The expansion as it is carried out, which ends at the first number beyond the limit. -/
def expandArity? (t : Text) : Except Text.DigitError Text := do
  arityRule.attempt (← redundantRule.attempt (← placeholderRule.attempt t))

def dropArity (t : Text) : Text := dropRule.apply t

example : expandArity "Transform``2".toList = "Transform<T1,T2>".toList := by decide +kernel
example : expandArity "``0".toList = "T1".toList := by decide +kernel

end ApiPages.Signature
