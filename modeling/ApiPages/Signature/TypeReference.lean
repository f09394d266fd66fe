import ApiPages.Signature.Arity
import ApiPages.Signature.Bracket

/-! Short labels of qualified type references. -/
namespace ApiPages.Signature

/-- The last segment of a dotted name. -/
def stripNamespace (name : Text) : Text := Text.afterLast '.' name

/-- Generic braces as angle brackets. -/
def bracesToAngles (t : Text) : Text := Text.exchange '}' '>' (Text.exchange '{' '<' t)

/-- The text as it is looked at: trimmed, with angle brackets for braces. -/
def reference (raw : Text) : Text := bracesToAngles (Text.trim raw)

/-- The keyword or last segment of a name without arguments. -/
def shortHead (name : Text) : Text := stripNamespace (applyTypeAliases name)

/-- A by-reference mark at the end, taken off. -/
def byReference? (t : Text) : Option Text :=
  if t.getLast? = some '@' then some t.dropLast else none

/-- The label of a reference whose arguments are nested at most `fuel` deep. -/
def shortenWithin : Nat → Text → Text
  | 0, raw => raw
  | fuel + 1, raw =>
    let reference := bracesToAngles (Text.trim raw)
    match byReference? reference with
    | some referent => "ref ".toList ++ shortenWithin fuel referent
    | none =>
      let expanded := expandArity reference
      match enclosed '<' '>' expanded with
      | .absent => shortHead expanded
      | .unclosed _ _ => raw
      | .closed name arguments rest =>
        let labels := (splitTopLevel (· = ',') arguments).map (shortenWithin fuel)
        shortHead name ++ '<' :: Text.join ", ".toList labels ++ '>' :: rest

/-- The label of a type reference: keywords for framework types, no namespaces, arguments separated
by a comma and a space. A text with an angle bracket that is never closed is its own label. Every
nested argument is shorter than the expanded reference around it, so that length is fuel enough. -/
def shorten (raw : Text) : Text :=
  shortenWithin ((expandArity (bracesToAngles raw)).length + 1) raw

/-- The labels of a raw parameter list, separated by a comma and a space. -/
def parameterList (raw : Text) : Text :=
  Text.join ", ".toList ((splitTopLevel (· = ',') raw).map shorten)

end ApiPages.Signature
