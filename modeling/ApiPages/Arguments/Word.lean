import ApiPages.Arguments.Switch
import ApiPages.Text.Digit

/-! Arguments by what they are: switches, marks and operands. -/
namespace ApiPages.Arguments

/-- An argument. -/
inductive Word where
  /-- An operand, or the value of the switch before it. -/
  | plain (t : Text)
  /-- The mark behind which there are no switches. -/
  | divider
  /-- A switch by its name or a beginning of it, perhaps with a value behind an equals sign. -/
  | switch (s : Switch) (value : Option Text)
  /-- Switches by their letters. -/
  | letters (t : Text)
  /-- What looks like a switch and is none. -/
  | unknown (t : Text)
  deriving DecidableEq

namespace Word

def dividerText : Text := ['-', '-']

/-- A number without exponent, as it follows a minus sign. -/
def isNumeral (t : Text) : Bool :=
  let fraction (t : Text) : Bool :=
    match t with
    | '.' :: digits => !digits.isEmpty && digits.all Text.isDigit
    | _ => false
  (!t.isEmpty && t.all Text.isDigit) || fraction (t.dropWhile Text.isDigit)

/-- An argument that begins with a hyphen and is no switch: a negative number or a text with spaces
is an operand. -/
def ofHyphened (t : Text) : Word :=
  if isNumeral (Text.dropFinalLineFeed t.tail) || t.contains ' ' then .plain t else .unknown t

/-- An argument that begins with two hyphens. A beginning stands for the switch if no other begins
like it. -/
def ofLong (t : Text) : Except UsageError Word :=
  match Switch.ofName? t with
  | some s => .ok (.switch s none)
  | none =>
    let (name, value) : Text × Option Text :=
      match Text.cutFirst '=' t with
      | some (name, value) => (name, some value)
      | none => (t, none)
    match Switch.ofName? name with
    | some s => .ok (.switch s value)
    | none =>
      match Switch.startingWith name with
      | [] => .ok (ofHyphened t)
      | [s] => .ok (.switch s value)
      | candidates => .error (.ambiguous t candidates)

def ofText (t : Text) : Except UsageError Word :=
  match t with
  | '-' :: '-' :: _ => ofLong t
  | '-' :: c :: rest =>
    match Switch.ofLetter? c with
    | some _ => .ok (.letters (c :: rest))
    | none => .ok (ofHyphened t)
  | _ => .ok (.plain t)

def ofTexts : List Text → Except UsageError (List Word)
  | [] => .ok []
  | t :: ts =>
    if t = dividerText then .ok (.divider :: ts.map .plain)
    else do return (← ofText t) :: (← ofTexts ts)

/-- The switches for which letters stand, and what is left from the first letter on that stands for
none. -/
def lettered : Text → Except UsageError (List Switch × Option Text)
  | [] => .ok ([], none)
  | c :: rest =>
    match Switch.ofLetter? c with
    | none => .ok ([], some ('-' :: c :: rest))
    | some s =>
      match rest with
      | '=' :: value => .error (.valueIgnored s value)
      | '-' :: _ => .error (.valueIgnored s rest)
      | _ => do
        let (more, left) ← lettered rest
        return (s :: more, left)

end Word
end ApiPages.Arguments
