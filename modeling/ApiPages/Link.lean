import ApiPages.Identifier
import ApiPages.Text.Lowercase

/-! Links: the names of pages, the anchors inside them, and where a cross-reference leads. -/
namespace ApiPages

open Signature

/-- Brackets in file names are square. -/
def anglesToSquares (t : Text) : Text := Text.exchange '>' ']' (Text.exchange '<' '[' t)

def fileName (options : Options) (type : Text) : Text :=
  let name := Identifier.stripTag type
  let trimmed :=
    if options.trimsFileNames.isTrue then (Identifier.behindRoot? options name).getD name else name
  let styled :=
    match options.fileNameStyle with
    | .verbatim => trimmed
    | .cleanGenerics => bracesToAngles (dropArity trimmed)
  anglesToSquares styled ++ ".md".toList

/-- Small ASCII letters, digits and hyphens. -/
def isSlugChar (c : Char) : Bool :=
  ('a' ≤ c && c ≤ 'z') || ('0' ≤ c && c ≤ '9') || c = '-'

/-- The anchor of a heading: in lower case, with hyphens for blanks, and without what is not a slug
character. A heading of which nothing is left is a section. -/
def headerSlug (heading : Text) : Text :=
  let slug := (Text.replaceRuns Text.isBlank '-' (Text.lower (Text.trim heading))).filter isSlugChar
  if slug.isEmpty then "section".toList else slug

/-- The anchor of a member: its identifier without the kind, with keywords for framework types and
square brackets for braces, in lower case. -/
def memberAnchor (id : Text) : Text :=
  Text.lower (Text.exchange '}' ']' (Text.exchange '{' '[' (applyTypeAliases id)))

/-- The mark in a document to which a link with this anchor leads. -/
def anchorMark (anchor : Text) : Text := "<a id=\"".toList ++ anchor ++ "\"></a>".toList

/-- Where a cross-reference leads. -/
structure Link where
  title : Text
  /-- The place, if the reference has one. -/
  href : Option Text

/-- An inline link, or inline code when there is no place to go. -/
def Link.markdown (link : Link) : Text :=
  match link.href with
  | none => '`' :: link.title ++ ['`']
  | some href => '[' :: link.title ++ "](".toList ++ href ++ [')']

namespace Reference

/-- The token has a kind of one letter and something behind the colon. -/
def isTagged : Text → Bool
  | kind :: ':' :: _ :: _ => Text.isLetter kind
  | _ => false

/-- The label of a trimmed token: of a type its visible name, of a namespace its name, of a method
its name and parameters, of other members their name. Any other token is its own label, without
the mark of an unresolved one. -/
def label (options : Options) (token : Text) : Text :=
  if !isTagged token then (Text.dropStart? ['!', ':'] token).getD token
  else
    let kind := token.head?
    let id := token.drop 2
    if kind = some 'T' then Identifier.displayName options id
    else if kind = some 'N' then id
    else
      let (path, parameters) := Identifier.splitParameters id
      let name := Text.afterLast '.' path
      if kind = some 'M' then
        Identifier.methodName name (some (Identifier.containingType token)) ++
          Identifier.parenthesised parameters
      else name

/-- The kinds of code elements that have a place in the documents. -/
def linkableKinds : List Char := ['T', 'M', 'P', 'F', 'E']

/-- The place of a trimmed token: in a single document the anchor, else the page of the type, with
the anchor behind it for a member. -/
def place? (options : Options) (singleDocument : Bool) (token : Text) : Option Text :=
  if !isTagged token then none
  else
    match token with
    | [] => none
    | kind :: _ =>
      if !linkableKinds.contains kind then none
      else if singleDocument then
        if kind = 'T' then some ('#' :: headerSlug (label options token))
        else some ('#' :: memberAnchor (token.drop 2))
      else if kind = 'T' then some (fileName options token)
      else
        some (fileName options (Identifier.containingType token) ++ '#' ::
          memberAnchor (token.drop 2))

/-- The link for a cross-reference; blanks around it do not count. -/
def resolve (options : Options) (singleDocument : Bool) (reference : Text) : Link :=
  let token := Text.trim reference
  ⟨label options token, place? options singleDocument token⟩

end Reference
end ApiPages
