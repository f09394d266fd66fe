import ApiPages.Catalog

/-! Inherited documentation: from which entry an entry inherits, and what it takes over. -/
namespace ApiPages

open Markup

/-- From which entry of a catalogue an entry inherits, if from any. -/
abbrev Strategy := Catalog → Entry → Option Entry

namespace Strategy

/-- The mark of an entry that inherits. -/
def inheritTag : Text := "inheritdoc".toList

/-- The reference on the mark, without blanks around it. -/
def explicitSource (e : Entry) : Text :=
  match e.element.child? inheritTag with
  | some mark => Text.trim (mark.attr "cref".toList)
  | none => []

/-- The beginnings of a row of segments that are neither empty nor the whole row, longest first. -/
def properStarts {α : Type} (segments : List α) : List (List α) :=
  ((List.range (segments.length - 1)).map fun n => segments.take (n + 1)).reverse

/-- The methods of the same name and parameters on the namespaces and types around, the nearest
first. -/
def outerMethods (identifier : Identifier) : List Identifier :=
  let id := identifier.id
  match Text.cutLast '.' (Text.beforeFirst '(' id) with
  | none => []
  | some (owner, _) =>
    let signature := id.drop (owner.length + 1)
    (properStarts (Text.splitOn '.' owner)).map fun start =>
      'M' :: ':' :: Text.join ['.'] start ++ '.' :: signature

/-- The first of the methods around that the catalogue has. -/
def nearest : Strategy := fun catalog e =>
  (outerMethods e.identifier).findSome? fun candidate =>
    (catalog.get? candidate).filter fun found => found.identifier ≠ e.identifier

/-- The entry that is named explicitly, or else the nearest method around. -/
def heuristic : Strategy := fun catalog e =>
  match if (explicitSource e).isEmpty then none else catalog.get? (explicitSource e) with
  | some found => some found
  | none => nearest catalog e

def ofTable (table : List (Identifier × Identifier)) : Strategy := fun catalog e =>
  (table.lookup e.identifier).bind catalog.get?

end Strategy

namespace Inheritance

/-- Sections of which an entry has one. -/
def singleSections : List Text :=
  ["summary".toList, "remarks".toList, "returns".toList, "value".toList]

/-- Sections of which an entry has one for each name. -/
def namedSections : List Text := ["param".toList, "typeparam".toList]

/-- Sections that an entry has as a list. -/
def listSections : List Text := ["exception".toList, "seealso".toList, "example".toList]

/-- The section of a tag that is missing in one element and found in another. -/
def missingSingle (into source : Element) (tag : Text) : List Element :=
  if into.hasChild tag then [] else (source.child? tag).toList

/-- The first sections of each name that is not among those present. -/
def firstOfEachName (present : List Text) : List Element → List Element
  | [] => []
  | e :: es =>
    let name := e.attr "name".toList
    if present.contains name then firstOfEachName present es
    else e :: firstOfEachName (name :: present) es

/-- The sections of a tag with names that are missing in one element and found in another. -/
def missingNamed (into source : Element) (tag : Text) : List Element :=
  firstOfEachName ((into.childrenNamed tag).map fun e => e.attr "name".toList)
    (source.childrenNamed tag)

/-- The whole list of sections of a tag, when one element has none of them. -/
def missingList (into source : Element) (tag : Text) : List Element :=
  if into.hasChild tag then [] else source.childrenNamed tag

/-- The sections that an element takes over from a source. -/
def takenOver (into source : Element) : List Element :=
  singleSections.flatMap (missingSingle into source) ++
    namedSections.flatMap (missingNamed into source) ++
    listSections.flatMap (missingList into source)

/-- An element with the sections of a source that it does not have itself, at its end. -/
def merge (into source : Element) : Element := into.append (takenOver into source)

def inheritsAny (e : Entry) : Bool := e.element.hasChild Strategy.inheritTag

/-- The entries behind an entry from which it inherits in turn. It ends at an entry that inherits
from none, or from one that was seen before. -/
def sourcesWithin (strategy : Strategy) (catalog : Catalog) :
    Nat → List Identifier → Entry → List Entry
  | 0, _, _ => []
  | fuel + 1, seen, e =>
    if !inheritsAny e then []
    else
      match strategy catalog e with
      | none => []
      | some source =>
        if (e.identifier :: seen).contains source.identifier then []
        else source :: sourcesWithin strategy catalog fuel (e.identifier :: seen) source

/-- The entries from which an entry inherits in turn. No identifier comes twice, so the number of
entries is steps enough. -/
def sources (strategy : Strategy) (catalog : Catalog) (e : Entry) : List Entry :=
  sourcesWithin strategy catalog (catalog.entries.length + 1) [] e

/-- An element merged with the first source, which is merged with the second, and so on. -/
def mergeAll (into : Element) : List Element → Element
  | [] => into
  | source :: rest => merge into (mergeAll source rest)

/-- The documentation of an entry with all that it inherits, however long the chain of its sources is:
the depth at which calls nested in one another would be stopped is not part of it. -/
def content (strategy : Strategy) (catalog : Catalog) (e : Entry) : Element :=
  mergeAll e.element ((sources strategy catalog e).map Entry.element)

/-- What following a chain of sources leaves in the log. -/
def chainNotices (e : Entry) : List Entry → List Notice
  | [] => if inheritsAny e then [.nothingInherited e.identifier] else []
  | source :: rest => .inherits e.identifier source.identifier :: chainNotices source rest

/-- What looking up the documentation of an entry leaves in the log. -/
def notices (strategy : Strategy) (catalog : Catalog) (e : Entry) : List Notice :=
  chainNotices e (sources strategy catalog e)

end Inheritance
end ApiPages
