import ApiPages.Text.Basic

/-! Double-precision numbers by their bits: reading a decimal to the nearest one, and writing the
fewest digits that read back. All arithmetic is exact, on natural numbers. -/
namespace ApiPages

/-- A double-precision number, as its sixty-four bits. -/
structure Binary64 where
  bits : UInt64
  deriving DecidableEq

namespace Binary64

def signBit : Nat := 0x8000000000000000

def exponentUnit : Nat := 0x10000000000000

def isNegative (x : Binary64) : Bool := signBit ≤ x.bits.toNat

/-- All bits but the sign. -/
def magnitude (x : Binary64) : Nat := x.bits.toNat % signBit

/-- The bits of infinity without a sign; the numbers that are not numbers lie above. -/
def infinityBits : Nat := 0x7FF * exponentUnit

def isNaN (x : Binary64) : Bool := infinityBits < x.magnitude

def isInfinite (x : Binary64) : Bool := x.magnitude == infinityBits

def isZero (x : Binary64) : Bool := x.magnitude == 0

def ofMagnitude (negative : Bool) (magnitude : Nat) : Binary64 :=
  ⟨UInt64.ofNat (magnitude + if negative then signBit else 0)⟩

/-- The magnitude is `m * 2 ^ q` for this pair `(m, q)`, when it is finite. -/
def decompose (x : Binary64) : Nat × Int :=
  let exponent : Nat := x.magnitude / exponentUnit
  let fraction : Nat := x.magnitude % exponentUnit
  if exponent = 0 then (fraction, -1074) else (fraction + exponentUnit, (exponent : Int) - 1075)

/-- The quotient rounded to the nearest natural number, a half to the even one. -/
def roundDiv (numerator denominator : Nat) : Nat :=
  let quotient := numerator / denominator
  let twice := 2 * (numerator % denominator)
  if twice < denominator then quotient
  else if denominator < twice then quotient + 1
  else quotient + quotient % 2

/-- A power with an integer exponent, as a numerator and a denominator. -/
def powerRatio (base : Nat) (exponent : Int) : Nat × Nat :=
  if 0 ≤ exponent then (Nat.pow base exponent.toNat, 1) else (1, Nat.pow base exponent.natAbs)

/-- The nearest number to a positive ratio; a half goes to the even significand. -/
def ofRatio (negative : Bool) (numerator denominator : Nat) : Binary64 :=
  if numerator = 0 || denominator = 0 then ofMagnitude negative 0
  else
    let scaled (q : Int) : Nat × Nat :=
      let (up, down) := powerRatio 2 (-q)
      (numerator * up, denominator * down)
    let guess : Int := (Nat.log2 numerator : Int) - Nat.log2 denominator - 52
    let below (q : Int) : Bool := let (n, d) := scaled q; n < d * exponentUnit
    let q := max (-1074) (if below guess then guess - 1 else guess)
    let (n, d) := scaled q
    let magnitude := (q + 1074).toNat * exponentUnit + roundDiv n d
    ofMagnitude negative (min magnitude infinityBits)

def ofDecimal (negative : Bool) (digits : Nat) (exponent : Int) : Binary64 :=
  let size : Int := (Nat.repr digits).length
  if digits = 0 || size + exponent < -400 then ofMagnitude negative 0
  else if 400 < size + exponent then ofMagnitude negative infinityBits
  else
    let (up, down) := powerRatio 10 exponent
    ofRatio negative (digits * up) down

def ratio (x : Binary64) : Nat × Nat :=
  let (m, q) := x.decompose
  let (up, down) := powerRatio 2 q
  (m * up, down)

def decimalSize (numerator denominator : Nat) : Int :=
  if denominator ≤ numerator then (Nat.repr (numerator / denominator)).length
  else
    match (List.range 400).find? fun j => denominator ≤ numerator * Nat.pow 10 (j + 1) with
    | some j => -(j : Int)
    | none => 0

/-- The better of the two neighbours of a magnitude on the grid of multiples of `10 ^ g`, among
those that read back as the number. -/
def gridPoint? (x : Binary64) (g : Int) : Option Nat :=
  let (m, q) := x.decompose
  let (up, down) := powerRatio 2 (q - 2)
  let (gridUp, gridDown) := powerRatio 10 g
  let low := if m = exponentUnit && -1074 < q then 4 * m - 1 else 4 * m - 2
  let place (quarters : Nat) : Nat := quarters * up * gridDown
  let point (c : Nat) : Nat := c * gridUp * down
  let readsBack (c : Nat) : Bool :=
    if m % 2 = 0 then place low ≤ point c && point c ≤ place (4 * m + 2)
    else place low < point c && point c < place (4 * m + 2)
  let c := place (4 * m) / (gridUp * down)
  let below := place (4 * m) - point c
  let above := point (c + 1) - place (4 * m)
  match readsBack c && 0 < c, readsBack (c + 1) with
  | true, true => some (if below < above || (below == above && c % 2 == 0) then c else c + 1)
  | true, false => some c
  | false, true => some (c + 1)
  | false, false => none

/-- The fewest digits that read back as a finite magnitude above 0, without zeros at the end, and
the place of the point counted from their front. -/
def shortest (x : Binary64) : Text × Int :=
  let (numerator, denominator) := x.ratio
  let size := decimalSize numerator denominator
  let found := (List.range 17).findSome? fun (n : Nat) =>
    let g : Int := size - (n + 1)
    (x.gridPoint? g).map fun c => (Text.ofNat c, g)
  let (digits, g) := found.getD (['0'], 0)
  (Text.dropEndWhile (· = '0') digits, digits.length + g)

/-- The spelling of infinity and of what is not a number. -/
structure Spelling where
  infinity : Text
  notANumber : Text

/-- Digits with a point, from which an exponent of 16 on and below -4 is split off. -/
def writtenDigits (digits : Text) (point : Int) : Text :=
  if -4 < point && point ≤ 16 then
    if point ≤ 0 then '0' :: '.' :: List.replicate point.natAbs '0' ++ digits
    else
      let whole := digits.take point.toNat
      let rest := digits.drop point.toNat
      whole ++ List.replicate (point.toNat - digits.length) '0' ++ '.' ::
        (if rest.isEmpty then ['0'] else rest)
  else
    let exponent := point - 1
    let rest := digits.drop 1
    let size := Text.ofNat exponent.natAbs
    digits.take 1 ++ (if rest.isEmpty then [] else '.' :: rest) ++
      ['e', if exponent < 0 then '-' else '+'] ++ List.replicate (2 - size.length) '0' ++ size

def written (spelling : Spelling) (x : Binary64) : Text :=
  if x.isNaN then spelling.notANumber
  else
    (if x.isNegative then ['-'] else []) ++
      if x.isInfinite then spelling.infinity
      else if x.isZero then "0.0".toList
      else let (digits, point) := x.shortest; writtenDigits digits point

end Binary64
end ApiPages
