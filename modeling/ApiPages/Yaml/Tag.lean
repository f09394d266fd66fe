import ApiPages.Text.Blank
import ApiPages.Text.Digit
import ApiPages.Text.Lowercase
import ApiPages.Value.Basic
import ApiPages.Yaml.Scalar

/-! The types of YAML values: which one a plain scalar has, and the value that a scalar of a type
spells. -/
namespace ApiPages.Yaml

/-- The type of a value. -/
inductive Tag where
  | null
  | bool
  | int
  | float
  | binary
  | timestamp
  | text
  | sequence
  | mapping
  | set
  | orderedMapping
  | pairs
  | merge
  | defaultValue
  /-- A type of which no value can be had. -/
  | unknown (name : Text)
  deriving DecidableEq

namespace Tag

def namespace_ : Text := "tag:yaml.org,2002:".toList

def named : List (Text × Tag) :=
  [("null".toList, .null), ("bool".toList, .bool), ("int".toList, .int), ("float".toList, .float),
   ("binary".toList, .binary), ("timestamp".toList, .timestamp), ("str".toList, .text),
   ("seq".toList, .sequence), ("map".toList, .mapping), ("set".toList, .set),
   ("omap".toList, .orderedMapping), ("pairs".toList, .pairs), ("merge".toList, .merge),
   ("value".toList, .defaultValue)]

def ofName (name : Text) : Tag :=
  ((Text.dropStart? namespace_ name).bind fun rest => named.lookup rest).getD (.unknown name)

end Tag

/-! The spellings of plain scalars. -/
namespace Plain

/-- The words for truth and for falsehood, in small letters. -/
def trueWords : List Text := ["yes".toList, "true".toList, "on".toList]
def falseWords : List Text := ["no".toList, "false".toList, "off".toList]

/-- The spellings of a word that count: small, with a capital in front, and in capitals. -/
def spellings (word : Text) : List Text :=
  let upper := word.map Char.toUpper
  [word, upper.take 1 ++ word.drop 1, upper]

def isTruthWord (t : Text) : Bool :=
  ((trueWords ++ falseWords).flatMap spellings).contains t

def isNullWord (t : Text) : Bool := t.isEmpty || t = ['~'] || (spellings "null".toList).contains t

def unsigned : Text → Text
  | '+' :: t => t
  | '-' :: t => t
  | t => t

def isDigitOr_ (c : Char) : Bool := c.isDigit || c = '_'

/-- Groups of at most two digits, the first of two below 6, each behind a colon; at least one. -/
def isSixtieths (t : Text) : Bool :=
  match Text.splitOn ':' t with
  | [] :: groups =>
    !groups.isEmpty && groups.all fun g =>
      match g with
      | [a] => a.isDigit
      | [a, b] => '0' ≤ a && a ≤ '5' && b.isDigit
      | _ => false
  | _ => false

/-- An integer: binary, octal, decimal, hexadecimal, or in sixtieths. -/
def isInteger (t : Text) : Bool :=
  match unsigned t with
  | '0' :: 'b' :: c :: cs => (c :: cs).all fun d => d = '0' || d = '1' || d = '_'
  | '0' :: 'x' :: c :: cs => (c :: cs).all fun d => Markup.Token.isHexDigit d || d = '_'
  | '0' :: cs => cs.all fun d => ('0' ≤ d && d ≤ '7') || d = '_'
  | c :: cs =>
    c.isDigit && (cs.all isDigitOr_ || isSixtieths (cs.dropWhile isDigitOr_))
  | [] => false

/-- An exponent with its sign, or nothing. -/
def isExponent : Text → Bool
  | [] => true
  | e :: sign :: c :: cs =>
    (e = 'e' || e = 'E') && (sign = '+' || sign = '-') && (c :: cs).all Char.isDigit
  | _ => false

/-- A point, digits, and an exponent. -/
def isFraction : Text → Bool
  | '.' :: cs => isExponent (cs.dropWhile isDigitOr_)
  | _ => false

def isSixtiethsFraction (t : Text) : Bool :=
  isSixtieths (t.takeWhile (· ≠ '.')) &&
    match t.dropWhile (· ≠ '.') with
    | '.' :: cs => cs.all isDigitOr_
    | _ => false

/-- A number with a point, or the spelling of infinity or of what is no number. -/
def isFloat (t : Text) : Bool :=
  let body := unsigned t
  let startsWithDigit := body.head?.any Char.isDigit
  (startsWithDigit &&
      (isFraction (body.dropWhile isDigitOr_) ||
        isSixtiethsFraction (body.dropWhile isDigitOr_))) ||
    (match t with
    | '.' :: c :: _ => c.isDigit && isFraction t
    | _ => false) ||
    [".inf".toList, ".Inf".toList, ".INF".toList].contains body ||
    [".nan".toList, ".NaN".toList, ".NAN".toList].contains t

end Plain

/-! Times. -/

/-- The parts of a time as they are spelled. -/
structure TimeText where
  year : Text
  month : Text
  day : Text
  /-- Hour, minute, second and the fraction of a second. -/
  clock : Option (Text × Text × Text × Text)
  /-- The distance to universal time in seconds. -/
  offset : Option Int

namespace TimeText

/-- So many digits at the beginning, at least some and at most others, and what follows them. -/
def digits? (least most : Nat) (t : Text) : Option (Text × Text) :=
  let run := (t.take most).takeWhile Char.isDigit
  if run.length < least then none else some (run, t.drop run.length)

def number (t : Text) : Nat := Markup.Token.numberIn 10 t

def zone? (t : Text) : Option (Option Int) :=
  match t.dropWhile fun c => c = ' ' || c = '\t' with
  | [] => if t.isEmpty then some none else none
  | ['Z'] => some (some 0)
  | sign :: rest =>
    if sign ≠ '+' && sign ≠ '-' then none
    else do
      let (hours, rest) ← digits? 1 2 rest
      let (minutes, rest) ←
        match rest with
        | ':' :: rest => digits? 2 2 rest
        | _ => some ([], rest)
      if !rest.isEmpty then failure
      let seconds : Int := 3600 * number hours + 60 * number minutes
      return some (if sign = '-' then -seconds else seconds)

/-- Hour, minute and second, with a fraction and a zone behind them. -/
def clock? (t : Text) : Option ((Text × Text × Text × Text) × Option Int) := do
  let (hour, rest) ← digits? 1 2 t
  let (minute, rest) ← digits? 2 2 (← Text.dropStart? [':'] rest)
  let (second, rest) ← digits? 2 2 (← Text.dropStart? [':'] rest)
  let (fraction, rest) : Text × Text :=
    match rest with
    | '.' :: rest => (rest.takeWhile Char.isDigit, rest.dropWhile Char.isDigit)
    | _ => ([], rest)
  return ((hour, minute, second, fraction), ← zone? rest)

/-- A day, alone or with a time of day behind a letter or white space. -/
def read? (t : Text) : Option TimeText := do
  let (year, rest) ← digits? 4 4 t
  let (month, rest) ← digits? 1 2 (← Text.dropStart? ['-'] rest)
  let (day, rest) ← digits? 1 2 (← Text.dropStart? ['-'] rest)
  match rest with
  | [] => return ⟨year, month, day, none, none⟩
  | c :: more =>
    let isWhite (c : Char) : Bool := c = ' ' || c = '\t'
    if c = 'T' || c = 't' || isWhite c then
      let (clock, offset) ← clock? (if isWhite c then more.dropWhile isWhite else more)
      return ⟨year, month, day, some clock, offset⟩
    else failure

/-- A plain scalar of this spelling is a time: a day alone has two digits for month and day. -/
def isPlain (t : Text) : Bool :=
  match read? t with
  | some parts => parts.clock.isSome || (parts.month.length = 2 && parts.day.length = 2)
  | none => false

def scalar (parts : TimeText) : Except CalendarError Scalar :=
  let year := number parts.year
  let month := number parts.month
  let day := number parts.day
  match parts.clock with
  | none => (Date.of year month day).map Scalar.date
  | some (hour, minute, second, fraction) =>
    let digits := fraction.take 6
    let microsecond := number (digits ++ List.replicate (6 - digits.length) '0')
    let microsecond := if fraction.isEmpty then 0 else microsecond
    (Instant.of year month day (number hour) (number minute) (number second) microsecond
      parts.offset).map Scalar.instant

end TimeText

def Tag.ofPlain (t : Text) : Tag :=
  if Plain.isTruthWord t then .bool
  else if Plain.isFloat t then .float
  else if Plain.isInteger t then .int
  else if t = "<<".toList then .merge
  else if Plain.isNullWord t then .null
  else if TimeText.isPlain t then .timestamp
  else if t = ['='] then .defaultValue
  else .text

/-- The type of a plain scalar, or of one that is to be typed like one. -/
def Tag.ofPlainWording : Wording → Tag
  | .text t => .ofPlain t
  | .loose _ => .text

/-! The values of scalars. -/

namespace Spelled

def without_ (t : Text) : Text := t.filter (· ≠ '_')

def digitIn? (base : Nat) (c : Char) : Option Nat :=
  let value :=
    match Text.digitValue? c with
    | some n => some n
    | none =>
      if c.isAlpha then some (c.toLower.toNat - 'a'.toNat + 10) else none
  value.filter (· < base)

def baseMarks : List (Nat × Text) := [(2, ['b', 'B']), (8, ['o', 'O']), (16, ['x', 'X'])]

/-- The digits without the mark of their base in front. -/
def dropBaseMark (base : Nat) (t : Text) : Text :=
  match t with
  | '0' :: c :: rest => if ((baseMarks.lookup base).getD []).contains c then rest else t
  | _ => t

/-- The integer that a text spells in a base, with blanks around it and a sign. -/
def integerIn (base : Nat) (t : Text) : Reading Int :=
  let trimmed := Text.trim t
  let digits := dropBaseMark base (Plain.unsigned trimmed)
  match digits.mapM (digitIn? base) with
  | some (d :: ds) =>
    let n : Nat := (d :: ds).foldl (fun n d => base * n + d) 0
    .ok (if trimmed.head? = some '-' then -n else n)
  | _ => .error (.notInteger base t)

/-- A number in sixtieths: each part counts sixty times the next. -/
def sixtieths (parts : List Int) : Int := parts.foldl (fun n part => 60 * n + part) 0

/-- The sign in front of a number, and the number without it. -/
def signed (t : Text) : Reading (Bool × Text) :=
  match t with
  | [] => .error .emptyNumber
  | '-' :: rest => .ok (true, rest)
  | '+' :: rest => .ok (false, rest)
  | rest => .ok (false, rest)

def integer (t : Text) : Reading Int := do
  let (negative, body) ← signed (without_ t)
  let n ←
    match body with
    | ['0'] => pure 0
    | '0' :: 'b' :: digits => integerIn 2 digits
    | '0' :: 'x' :: digits => integerIn 16 digits
    | [] => throw .emptyNumber
    | c :: _ =>
      if c = '0' then integerIn 8 body
      else if body.contains ':' then
        ((Text.splitOn ':' body).mapM (integerIn 10)).map sixtieths
      else integerIn 10 body
  return if negative then -n else n

def infinity (negative : Bool) : Binary64 := .ofMagnitude negative Binary64.infinityBits
def notANumber : Binary64 := .ofMagnitude false (Binary64.infinityBits + 1)

def exponent? (t : Text) : Option Int :=
  match t with
  | [] => some 0
  | e :: rest =>
    if e ≠ 'e' && e ≠ 'E' then none
    else
      let digits := Plain.unsigned rest
      if digits.isEmpty || !digits.all Text.isDigit then none
      else
        let n : Int := Text.digitsValue digits
        some (if rest.head? = some '-' then -n else n)

/-- The number that a text spells, with blanks around it, a sign, a point and an exponent, or as a
word. -/
def float (t : Text) : Reading Binary64 :=
  let trimmed := Text.trim t
  let negative := trimmed.head? = some '-'
  let body := Plain.unsigned trimmed
  let word := body.map Char.toLower
  if word = "inf".toList || word = "infinity".toList then .ok (infinity negative)
  else if word = "nan".toList then .ok notANumber
  else
    let whole := body.takeWhile Text.isDigit
    let rest := body.dropWhile Text.isDigit
    let (fraction, rest) : Text × Text :=
      match rest with
      | '.' :: rest => (rest.takeWhile Text.isDigit, rest.dropWhile Text.isDigit)
      | _ => ([], rest)
    match exponent? rest with
    | some e =>
      if whole.isEmpty && fraction.isEmpty then .error (.notNumber t)
      else .ok (.ofDecimal negative (Text.digitsValue (whole ++ fraction)) (e - fraction.length))
    | none => .error (.notNumber t)

/-- A number in sixtieths, the last part with a fraction, added up from the last part on. -/
def sixtiethsFloat (parts : List Binary64) : Binary64 :=
  let value (x : Binary64) : Float := Float.ofBits x.bits
  let sum := parts.reverse.foldl
    (fun (total, base) part => (total + value part * base, base * 60)) ((0 : Float), (1 : Float))
  ⟨sum.1.toBits⟩

def negate (x : Binary64) : Binary64 := .ofMagnitude (!x.isNegative) x.magnitude

def number (t : Text) : Reading Binary64 := do
  let (negative, body) ← signed (Text.lower (without_ t))
  let x ←
    if body = ".inf".toList then pure (infinity false)
    else if body = ".nan".toList then pure notANumber
    else if body.contains ':' then ((Text.splitOn ':' body).mapM float).map sixtiethsFloat
    else float body
  return if negative then negate x else x

/-- The value of a letter, digit or sign among the sixty-four. -/
def sextet? (c : Char) : Option Nat :=
  if 'A' ≤ c && c ≤ 'Z' then some (c.toNat - 'A'.toNat)
  else if 'a' ≤ c && c ≤ 'z' then some (c.toNat - 'a'.toNat + 26)
  else if c.isDigit then some (c.toNat - '0'.toNat + 52)
  else if c = '+' then some 62
  else if c = '/' then some 63
  else none

/-- Bytes from sextets, four of which make three bytes. -/
def sextetBytes : List Nat → Option (List UInt8)
  | a :: b :: c :: d :: rest => do
    let n := ((a * 64 + b) * 64 + c) * 64 + d
    return UInt8.ofNat (n / 65536) :: UInt8.ofNat (n / 256) :: UInt8.ofNat n ::
      (← sextetBytes rest)
  | [a, b, c] =>
    let n := (a * 64 + b) * 64 + c
    some [UInt8.ofNat (n / 1024), UInt8.ofNat (n / 4)]
  | [a, b] => some [UInt8.ofNat ((a * 64 + b) / 16)]
  | [_] => none
  | [] => some []

/-- The sextets of the signs that count, from a place in a group of four on: up to the equals signs
that fill a group with at least two signs. Other equals signs and other characters do not count. -/
def sextets? (place filled : Nat) : Text → Option (List Nat)
  | [] => if place = 0 then some [] else none
  | c :: cs =>
    if c = '=' then
      if place < 2 then sextets? place filled cs
      else if 4 ≤ place + filled + 1 then some []
      else sextets? place (filled + 1) cs
    else
      match sextet? c with
      | none => sextets? place filled cs
      | some n => (sextets? ((place + 1) % 4) 0 cs).map (n :: ·)

/-- The bytes that an ASCII text in sixty-four signs spells. -/
def bytes (t : Text) : Reading (List UInt8) :=
  match (if t.all fun c => c.toNat < 128 then sextets? 0 0 t else none).bind sextetBytes with
  | some bs => .ok bs
  | none => .error .malformed

def truth (t : Text) : Reading Bool :=
  let word := Text.lower t
  if Plain.trueWords.contains word then .ok true
  else if Plain.falseWords.contains word then .ok false
  else .error (.notTruth word)

/-- The time that a scalar spells; a line feed at its end does not count. -/
def time (t : Text) : Reading Scalar :=
  match TimeText.read? (Text.dropFinalLineFeed t) with
  | none => .error .notTime
  | some parts =>
    match parts.scalar with
    | .ok s => .ok s
    | .error e => .error (.outOfRange e)

end Spelled

/-- The scalar that a text spells as a value of a type. -/
def Tag.scalarOfText (tag : Tag) (t : Text) : Reading Scalar :=
  match tag with
  | .null => .ok .null
  | .bool => (Spelled.truth t).map Scalar.bool
  | .int => (Spelled.integer t).map Scalar.int
  | .float => (Spelled.number t).map Scalar.float
  | .binary => (Spelled.bytes t).map Scalar.bytes
  | .timestamp => Spelled.time t
  | .text => .ok (.text t)
  | _ => .error .malformed

/-- Halves of surrogate pairs spell nothing but themselves. -/
def Tag.scalar (tag : Tag) (content : Wording) : Reading Scalar :=
  match content with
  | .text t => tag.scalarOfText t
  | .loose t =>
    match tag with
    | .null => .ok .null
    | .text => .ok (.loose t)
    | .timestamp => .error .notTime
    | _ => .error .malformed

end ApiPages.Yaml
