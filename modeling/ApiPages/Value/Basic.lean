import ApiPages.Text.Loose
import ApiPages.Value.Binary64
import ApiPages.Value.Calendar

/-! The values that settings are made of: scalars, lists, and mappings that keep the order of their
keys. -/
namespace ApiPages

/-- A value without parts. Every key of a mapping is one. -/
inductive Scalar where
  | null
  | bool (b : Bool)
  | int (i : Int)
  | float (x : Binary64)
  | text (t : Text)
  /-- A text with halves of surrogate pairs. -/
  | loose (t : Loose)
  | date (d : Date)
  | instant (i : Instant)
  | bytes (bs : List UInt8)
  deriving DecidableEq

/-- What a scalar is as a key of a mapping. -/
inductive Key where
  /-- A whole number, written as one, with a point, or as a truth value. -/
  | whole (i : Int)
  /-- A time whose distance to universal time is known: microseconds by the clock of that. -/
  | moment (microseconds : Int)
  | other (s : Scalar)
  deriving DecidableEq

/-- A setting. -/
inductive Value where
  | scalar (s : Scalar)
  | list (items : List Value)
  | mapping (entries : List (Scalar × Value))
  /-- An entry of an ordered list of pairs. -/
  | pair (first second : Value)
  /-- A set, in the order in which its members were given. -/
  | set (members : List Scalar)

instance : Inhabited Value := ⟨.scalar .null⟩

namespace Scalar

def shownFloat : Binary64.Spelling := ⟨"inf".toList, "nan".toList⟩

def shownByte (quote : Char) (b : UInt8) : Text :=
  let c := Char.ofNat b.toNat
  if c = quote || c = '\\' then ['\\', c]
  else if c = '\t' then ['\\', 't']
  else if c = '\n' then ['\\', 'n']
  else if c = '\r' then ['\\', 'r']
  else if b < 0x20 || 0x7F ≤ b then '\\' :: 'x' :: Text.hexPadded 2 b.toNat
  else [c]

def shownBytes (bs : List UInt8) : Text :=
  let quote := Text.quoteFor (bs.map fun b => Char.ofNat b.toNat)
  'b' :: quote :: bs.flatMap (shownByte quote) ++ [quote]

def shown : Scalar → Text
  | .null => "None".toList
  | .bool true => "True".toList
  | .bool false => "False".toList
  | .int i => Text.ofInt i
  | .float x => x.written shownFloat
  | .text t => Text.quoted t
  | .loose t => t.quoted
  | .date d => d.shown
  | .instant i => i.shown
  | .bytes bs => shownBytes bs

/-- A scalar as plain text: texts and times as they are written, with escapes for halves of pairs, the
rest as messages show them. -/
def plain : Scalar → Text
  | .text t => t
  | .loose t => t.escaped
  | .date d => d.text
  | .instant i => i.text
  | s => s.shown

/-- Neither nothing nor zero nor empty. -/
def isTrue : Scalar → Bool
  | .null => false
  | .bool b => b
  | .int i => i != 0
  | .float x => !x.isZero
  | .text t => !t.isEmpty
  | .loose _ => true
  | .date _ => true
  | .instant _ => true
  | .bytes bs => !bs.isEmpty

def wording? : Scalar → Option Wording
  | .text t => some (.text t)
  | .loose t => some (.loose t)
  | _ => none

/-- The finite number that a scalar counts as, as a numerator and a denominator. -/
def number? : Scalar → Option (Int × Nat)
  | .bool b => some (if b then 1 else 0, 1)
  | .int i => some (i, 1)
  | .float x =>
    if x.isNaN || x.isInfinite then none
    else
      let (numerator, denominator) := x.ratio
      some (if x.isNegative then -numerator else numerator, denominator)
  | _ => none

/-- Scalars are one key if they are equal as numbers or as moments, or are the same. -/
def key : Scalar → Key
  | .bool b => .whole (if b then 1 else 0)
  | .int i => .whole i
  | .float x =>
    match (Scalar.float x).number? with
    | some (numerator, denominator) =>
      if numerator % denominator = 0 then .whole (numerator / denominator) else .other (.float x)
    | none => .other (.float x)
  | .instant i =>
    match i.offset with
    | some seconds => .moment (i.microseconds - seconds * 1000000)
    | none => .other (.instant i)
  | s => .other s

end Scalar

namespace Value

def null : Value := .scalar .null
def bool (b : Bool) : Value := .scalar (.bool b)
def int (i : Int) : Value := .scalar (.int i)
def text (t : Text) : Value := .scalar (.text t)

def wording? : Value → Option Wording
  | .scalar s => s.wording?
  | _ => none

def wording : Wording → Value
  | .text t => .text t
  | .loose t => .scalar (.loose t)

def record (fields : List (Text × Value)) : Value :=
  .mapping (fields.map fun (key, value) => (.text key, value))

/-- Neither nothing nor zero nor empty. -/
def isTrue : Value → Bool
  | .scalar s => s.isTrue
  | .list items => !items.isEmpty
  | .mapping entries => !entries.isEmpty
  | .pair _ _ => true
  | .set members => !members.isEmpty

mutual

def shown : Value → Text
  | .scalar s => s.shown
  | .list items => '[' :: Text.join ", ".toList (shownItems items) ++ [']']
  | .mapping entries => '{' :: Text.join ", ".toList (shownEntries entries) ++ ['}']
  | .pair first second => '(' :: first.shown ++ ", ".toList ++ second.shown ++ [')']
  | .set members =>
    if members.isEmpty then "set()".toList
    else '{' :: Text.join ", ".toList (members.map Scalar.shown) ++ ['}']

def shownItems : List Value → List Text
  | [] => []
  | v :: vs => v.shown :: shownItems vs

def shownEntries : List (Scalar × Value) → List Text
  | [] => []
  | (key, value) :: rest =>
    (key.shown ++ ": ".toList ++ value.shown) :: shownEntries rest

end

def plain : Value → Text
  | .scalar s => s.plain
  | v => v.shown

end Value
end ApiPages
