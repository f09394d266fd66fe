import ApiPages.Markup.Document
import ApiPages.Notice
import ApiPages.Order
import ApiPages.Readers

/-! The documented code elements of an export, by identifier. -/
namespace ApiPages

open Markup

/-- A documented code element: its identifier, the record that documents it, and where the record
stands in the document. -/
structure Entry where
  identifier : Identifier
  element : Element
  position : Element.Position

/-- The entries of an export, in the order in which their identifiers first appear. -/
structure Catalog where
  entries : List Entry

namespace Catalog

def empty : Catalog := ⟨[]⟩

def recordTag : Text := "member".toList

/-- The entries of all records with a name that is not blank, in document order. -/
def records (root : Element) : List Entry :=
  (root.occurrences recordTag []).filterMap fun (position, element) =>
    let name := element.attr "name".toList
    if Text.isBlankText name then none else some ⟨name, element, position⟩

/-- The entries with one more, which takes the place of an earlier one with its identifier. -/
def put (entry : Entry) : List Entry → List Entry
  | [] => [entry]
  | e :: es => if e.identifier = entry.identifier then entry :: es else e :: put entry es

/-- The catalogue of a document: the last record of every name, in the place of the first. -/
def ofDocument (root : Element) : Catalog :=
  ⟨(records root).foldl (fun entries entry => put entry entries) []⟩

/-- Those identifiers that appeared before, each time they do. -/
def repeated : List Identifier → List Identifier → List Identifier
  | _, [] => []
  | seen, i :: is =>
    if seen.contains i then i :: repeated seen is else repeated (i :: seen) is

def loadingNotices (root : Element) : List Notice :=
  (repeated [] ((records root).map Entry.identifier)).map Notice.repeatedMember ++
    [.membersLoaded (ofDocument root).entries.length]

def get? (catalog : Catalog) (identifier : Identifier) : Option Entry :=
  catalog.entries.find? fun e => e.identifier == identifier

def identifiers (catalog : Catalog) : List Identifier := catalog.entries.map Entry.identifier

/-- Entries in the order of their identifiers without the kinds. -/
def sortById (entries : List Entry) : List Entry :=
  sortBy (fun a b => Text.le a.identifier.id b.identifier.id) entries

def types (catalog : Catalog) : List Entry :=
  sortById (catalog.entries.filter fun e => e.identifier.isType)

/-- The entry is a method, property, field or event of the type. -/
def isMemberOf (type : Identifier) (entry : Entry) : Bool :=
  entry.identifier.isMember && (type.id ++ ['.']).isPrefixOf entry.identifier.id &&
    Identifier.containingType entry.identifier == 'T' :: ':' :: type.id

def membersOf (catalog : Catalog) (type : Identifier) : List Entry :=
  sortById (catalog.entries.filter (isMemberOf type))

def restrict (entries : List Entry) : Catalog :=
  ⟨entries.foldl (fun kept entry => put entry kept) []⟩

/-- The catalogue after more children came to the record at a position. Records around it have them
inside as well. -/
def appendAt (catalog : Catalog) (position : Element.Position) (more : List Element) : Catalog :=
  ⟨catalog.entries.map fun e =>
    match e.position.isPrefixOf position with
    | true =>
      let inner := position.drop e.position.length
      { e with element := Element.modifyAt (fun found => found.append more) inner e.element }
    | false => e⟩

end Catalog

/-- Why no catalogue can be had. -/
inductive LoadCause where
  | notReadable (error : ReadError)
  | unreadable (cause : Files.Cause)
  deriving DecidableEq

namespace LoadCause

def wording : LoadCause → Text
  | .notReadable error => error.wording
  | .unreadable cause => cause.wording

/-- The cause is told to the user. The others end a run as errors of the program. -/
def isTold : LoadCause → Bool
  | .notReadable error => error = .notWellFormed
  | .unreadable cause => cause ≠ .zeroInPath

end LoadCause

/-- An export that cannot be loaded. -/
structure LoadError where
  path : Text
  cause : LoadCause

def LoadError.message (e : LoadError) : Text :=
  if e.cause.isTold then
    "Cannot load documentation export '".toList ++ e.path ++ "': ".toList ++ e.cause.wording
  else e.cause.wording

namespace Catalog

/-- The name under which a text that was not read from a file is reported. -/
def textPath : Text := "<string>".toList

def documentOfText (t : Text) : Except LoadError Element :=
  match Element.ofText? t with
  | some root => .ok root
  | none => .error ⟨textPath, .notReadable .notWellFormed⟩

def documentOfFile (readers : Readers) (tree : Files.Tree) (path : Files.Path) :
    Except LoadError Element :=
  match tree.read path with
  | .error e => .error ⟨path.text, .unreadable e.cause⟩
  | .ok bytes =>
    match readers.element bytes with
    | .error e => .error ⟨path.text, .notReadable e⟩
    | .ok root => .ok root

end Catalog

/-- Entries under one key. -/
structure Group where
  key : Text
  members : List Entry

namespace Group

/-- The groups with one more entry, behind the others of its key or in a group of its own at the
end. -/
def add (entry : Entry) : List Group → List Group
  | [] => [⟨entry.identifier.groupKey, [entry]⟩]
  | g :: gs =>
    if g.key = entry.identifier.groupKey then { g with members := g.members ++ [entry] } :: gs
    else g :: add entry gs

/-- Entries in groups by kind and name, in the order in which the keys first appear. -/
def ofEntries (entries : List Entry) : List Group :=
  entries.foldl (fun groups entry => add entry groups) []

end Group
end ApiPages
