import ApiPages.Text.Basic

/-! Elements of an XML document, with the texts around their children. -/
namespace ApiPages.Markup

/-- An element: its tag, its attributes, the text before its first child, its children, and the
text that follows its own end. A name in a namespace is written with the namespace in braces in
front. -/
structure Element where
  tag : Text
  attributes : List (Text × Text)
  text : Text
  children : List Element
  tail : Text

/-- Why bytes give no element. -/
inductive ReadError where
  | notWellFormed
  /-- The document names an encoding that there is not. -/
  | unknownEncoding (name : Text)
  /-- The document names an encoding with characters of several bytes, other than those of Unicode. -/
  | multiByteEncoding
  deriving DecidableEq

/-- The wording of an error. What is wrong with a text that is not well-formed is not said in detail. -/
def ReadError.wording : ReadError → Text
  | .notWellFormed => "not well-formed (...)".toList
  | .unknownEncoding name => "unknown encoding: ".toList ++ name
  | .multiByteEncoding => "multi-byte encodings are not supported".toList

namespace Element

def attr? (e : Element) (name : Text) : Option Text := e.attributes.lookup name

/-- The value of an attribute, empty when it is missing. -/
def attr (e : Element) (name : Text) : Text := (e.attr? name).getD []

def child? (e : Element) (tag : Text) : Option Element := e.children.find? (·.tag == tag)

def childrenNamed (e : Element) (tag : Text) : List Element := e.children.filter (·.tag == tag)

def hasChild (e : Element) (tag : Text) : Bool := (e.child? tag).isSome

def append (e : Element) (more : List Element) : Element :=
  { e with children := e.children ++ more }

mutual

def innerText : Element → Text
  | ⟨_, _, text, children, _⟩ => text ++ innerTexts children

def innerTexts : List Element → Text
  | [] => []
  | ⟨tag, attributes, text, children, tail⟩ :: es =>
    innerText ⟨tag, attributes, text, children, tail⟩ ++ tail ++ innerTexts es

end

/-- Where an element stands in a document: the numbers of the children to follow from the root. -/
abbrev Position := List Nat

mutual

/-- The elements with a tag at and below a position, in document order. -/
def occurrences (tag : Text) (position : Position) : Element → List (Position × Element)
  | ⟨t, attributes, text, children, tail⟩ =>
    (if t = tag then [(position, ⟨t, attributes, text, children, tail⟩)] else []) ++
      occurrencesFrom tag position 0 children

def occurrencesFrom (tag : Text) (position : Position) (number : Nat) :
    List Element → List (Position × Element)
  | [] => []
  | e :: es =>
    occurrences tag (position ++ [number]) e ++ occurrencesFrom tag position (number + 1) es

end

def modifyAt (f : Element → Element) : Position → Element → Element
  | [], e => f e
  | number :: rest, e => { e with children := e.children.modify number (modifyAt f rest) }

end Element
end ApiPages.Markup
