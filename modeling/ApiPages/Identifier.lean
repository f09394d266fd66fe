import ApiPages.Options
import ApiPages.Signature.TypeReference
import ApiPages.Text.Letter

/-! Identifiers of documented code elements: a kind of one letter, a colon, a dotted name, and for
methods and indexers a parameter list in parentheses. -/
namespace ApiPages

abbrev Identifier := Text

namespace Identifier

open Signature

/-- What stands before the first colon; nothing when there is no colon. -/
def kind (i : Identifier) : Text :=
  match Text.cutFirst ':' i with
  | some (kind, _) => kind
  | none => []

def id (i : Identifier) : Text :=
  match Text.cutFirst ':' i with
  | some (_, rest) => rest
  | none => i

def kindWords : List (Text × Text) :=
  [("T".toList, "Type".toList),
   ("M".toList, "Method".toList),
   ("P".toList, "Property".toList),
   ("F".toList, "Field".toList),
   ("E".toList, "Event".toList)]

def kindWord (i : Identifier) : Text := (kindWords.lookup i.kind).getD i.kind

def isType (i : Identifier) : Bool := i.kind == ['T']

def isMethod (i : Identifier) : Bool := i.kind == ['M']

def isMember (i : Identifier) : Bool := [['M'], ['P'], ['F'], ['E']].contains i.kind

/-- A tag of one character and a colon at the front, taken off. -/
def stripTag : Text → Text
  | _ :: ':' :: rest => rest
  | t => t

/-- The dotted name and the parameter list, if there is one. Without a closing parenthesis the list
goes on to the end. -/
def splitParameters (id : Text) : Text × Option Text :=
  match enclosed '(' ')' id with
  | .absent => (id, none)
  | .unclosed name rest => (name, some rest)
  | .closed name parameters _ => (name, some parameters)

/-- The type that owns the referenced member: the name is cut at its last dot before the parameter
list. -/
def containingType (reference : Text) : Identifier :=
  let name := Text.beforeFirst '(' (stripTag reference)
  'T' :: ':' ::
    match Text.cutLast '.' name with
    | some (owner, _) => owner
    | none => name

/-- The names under which constructors are listed. -/
def constructorNames : List Text := ["#ctor".toList, "#cctor".toList]

/-- The shown name of a method: a constructor has the short name of its type. -/
def methodName (name : Text) (owner : Option Identifier) : Text :=
  match owner with
  | some (c :: cs) =>
    if constructorNames.contains name then Text.afterLast '.' (dropArity (stripTag (c :: cs)))
    else expandArity name
  | _ => expandArity name

def memberName (i : Identifier) : Text :=
  let name := Text.afterLast '.' (splitParameters i.id).1
  if i.isMethod then methodName name (some (containingType i)) else name

def parenthesised (parameters : Option Text) : Text :=
  '(' :: parameterList (parameters.getD []) ++ [')']

/-- The heading of a member: the word for its kind, its name, and for methods and indexers the
parameters. -/
def memberHeader (i : Identifier) : Text :=
  let parameters := (splitParameters i.id).2
  i.kindWord ++ ": ".toList ++ i.memberName ++
    if i.isMethod || parameters.isSome then parenthesised parameters else []

/-- The key under which overloads stand together. -/
def groupKey (i : Identifier) : Text := i.kindWord ++ ": ".toList ++ i.memberName

/-- The part of a type name behind the namespace that visible names leave out. -/
def behindRoot? (options : Options) (name : Text) : Option Text :=
  options.root.bind fun root => Text.dropStart? (root ++ ['.']) name

/-- The visible name of a type: its path behind the left-out namespace with every segment
shortened, or else its short name alone. -/
def displayName (options : Options) (type : Text) : Text :=
  let name := stripTag type
  match behindRoot? options name with
  | some path => Text.join ['.'] ((splitTopLevel (· = '.') path).map shorten)
  | none => shorten name

end Identifier
end ApiPages
