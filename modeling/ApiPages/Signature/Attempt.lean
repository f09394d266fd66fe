import ApiPages.Signature.TypeReference

/-! Shortening and splitting as they are carried out, call by call: partners of brackets are looked for by
position, numbers are read from digits, and a call leads to others. A search may fail, a number may have too
many digits, and calls may go on for longer than is waited for. -/
namespace ApiPages.Signature

/-- The first bracket of a kind, found by its position, with the partner that is looked for from there
on. -/
def locate (opener : Char) (t : Text) : Except BracketError Enclosed :=
  match t.idxOf? opener with
  | none => .ok .absent
  | some position =>
    match matchingBracket t position with
    | .error error => .error error
    | .ok none => .ok (.unclosed (t.take position) (t.drop (position + 1)))
    | .ok (some partner) =>
      .ok (.closed (t.take position) ((t.take partner.toNat).drop (position + 1))
        (t.drop (partner.toNat + 1)))

/-- The cut of an identifier in front of its parameters, with the search for the parenthesis that closes
them. -/
def splitCall (id : Text) : Except BracketError (Text × Option Text) := do
  match ← locate '(' id with
  | .absent => return (id, none)
  | .unclosed name rest => return (name, some rest)
  | .closed name parameters _ => return (name, some parameters)

/-- Why a text is not shortened. -/
inductive ShorteningError where
  | bracket (error : BracketError)
  | digits (error : Text.DigitError)
  deriving DecidableEq

def ShorteningError.message : ShorteningError → Text
  | bracket error => error.message
  | digits error => error.message

/-- A computation that ends with a result or with an error, or does not end within the calls that it may
make. -/
abbrev Attempt := ExceptT ShorteningError Option

def Attempt.ofSearch {α : Type} (found : Except BracketError α) : Attempt α :=
  ExceptT.mk (some (found.mapError .bracket))

def Attempt.ofConversion {α : Type} (converted : Except Text.DigitError α) : Attempt α :=
  ExceptT.mk (some (converted.mapError .digits))

/-- The shortening of a text by calls that are nested at most so deep. -/
def shortenCall : Nat → Text → Attempt Text
  | 0, _ => ExceptT.mk none
  | calls + 1, raw =>
    match byReference? (reference raw) with
    | some referent => do
      let label ← shortenCall calls referent
      return "ref ".toList ++ label
    | none => do
      let expanded ← Attempt.ofConversion (expandArity? (reference raw))
      match ← Attempt.ofSearch (locate '<' expanded) with
      | .absent => return shortHead expanded
      | .unclosed _ _ => return raw
      | .closed name inside rest =>
        let labels ← (splitTopLevel (· = ',') inside).mapM (shortenCall calls)
        return shortHead name ++ '<' :: Text.join ", ".toList labels ++ '>' :: rest

/-- So deep calls are nested at most: marks for references are taken off the text, and what is nested in it
is in its expansion. -/
def callsEnough (raw : Text) : Nat :=
  match expandArity? (bracesToAngles raw) with
  | .ok expanded => expanded.length + 1
  | .error _ => raw.length + 1

/-- The shortening as it is carried out. -/
def shorten? (raw : Text) : Option (Except ShorteningError Text) :=
  (shortenCall (callsEnough raw) raw).run

end ApiPages.Signature
