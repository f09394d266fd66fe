import ApiPages.Markup.Doctype
import ApiPages.Markup.Element

/-! Documents: one root element, with every tag closed in turn and every prefix bound to a
namespace. -/
namespace ApiPages.Markup

/-- Prefixes with the namespaces they are bound to, the innermost first. An unbound default
namespace is empty. -/
abbrev Bindings := List (Option Text × Text)

namespace Bindings

def xmlNamespace : Text := "http://www.w3.org/XML/1998/namespace".toList
def declarationNamespace : Text := "http://www.w3.org/2000/xmlns/".toList
def xmlPrefix : Text := "xml".toList
def declarationPrefix : Text := "xmlns".toList

/-- The prefix that is bound without a declaration. -/
def initial : Bindings := [(some xmlPrefix, xmlNamespace)]

/-- The prefix that an attribute declares, if it is a declaration. -/
def declared? (name : QName) : Option (Option Text) :=
  if name.space = some declarationPrefix then some (some name.localName)
  else if name.space = none && name.localName = declarationPrefix then some none
  else none

/-- A declaration is allowed: the reserved prefixes and namespaces stay with each other, only the
default namespace may be empty, and no namespace has a closing brace. -/
def isAllowed (bound : Option Text) (uri : Text) : Bool :=
  let reserved := bound = some xmlPrefix
  !(uri.isEmpty && bound.isSome) && bound != some declarationPrefix && !uri.contains '\x7d' &&
    decide (uri = xmlNamespace) == reserved && uri != declarationNamespace

/-- The bindings inside an element with these attributes. -/
def extend? (bindings : Bindings) : List (QName × Text) → Option Bindings
  | [] => some bindings
  | (name, value) :: rest =>
    match declared? name with
    | none => extend? bindings rest
    | some bound =>
      if isAllowed bound value then extend? ((bound, value) :: bindings) rest else none

def expanded (uri localName : Text) : Text :=
  if uri.isEmpty then localName else '\x7b' :: uri ++ '\x7d' :: localName

/-- The full name of an element: without a prefix it is in the default namespace. -/
def elementName? (bindings : Bindings) (name : QName) : Option Text :=
  match name.space with
  | none => some (expanded ((bindings.lookup none).getD []) name.localName)
  | some bound => (bindings.lookup (some bound)).map fun uri => expanded uri name.localName

/-- The full name of an attribute: without a prefix it is in no namespace. -/
def attributeName? (bindings : Bindings) (name : QName) : Option Text :=
  match name.space with
  | none => some name.localName
  | some bound => (bindings.lookup (some bound)).map fun uri => expanded uri name.localName

/-- The attributes under their full names, without the declarations. No name may come twice. -/
def attributes? (bindings : Bindings) (attributes : List (QName × Text)) :
    Option (List (Text × Text)) := do
  let kept := attributes.filter fun a => (declared? a.1).isNone
  let named ← kept.mapM fun a => do return (← attributeName? bindings a.1, a.2)
  if (attributes.map Prod.fst).Nodup && (named.map Prod.fst).Nodup then some named else none

end Bindings

/-- An element whose closing tag has not come yet, with its children in reverse. -/
structure OpenElement where
  name : QName
  tag : Text
  attributes : List (Text × Text)
  text : Text
  children : List Element
  bindings : Bindings

namespace OpenElement

/-- Text put behind the last child, or at the front when there is none. -/
def addText (e : OpenElement) (t : Text) : OpenElement :=
  match e.children with
  | [] => { e with text := e.text ++ t }
  | child :: rest => { e with children := { child with tail := child.tail ++ t } :: rest }

def addChild (e : OpenElement) (child : Element) : OpenElement :=
  { e with children := child :: e.children }

def close (e : OpenElement) : Element := ⟨e.tag, e.attributes, e.text, e.children.reverse, []⟩

/-- An element after its opening tag, inside these bindings. -/
def start? (outer : Bindings) (name : QName) (attributes : List (QName × Text)) :
    Option OpenElement := do
  let bindings ← outer.extend? attributes
  return ⟨name, ← bindings.elementName? name, ← bindings.attributes? attributes, [], [], bindings⟩

end OpenElement

namespace Element

/-- Nothing but white space. -/
def isEnd : List Token → Bool
  | [] => true
  | .space _ :: rest => isEnd rest
  | _ => false

/-- The root element from the tokens inside open elements, the innermost first. -/
def ofInner? : OpenElement → List OpenElement → List Token → Option Element
  | _, _, [] => none
  | e, outer, .text t :: rest => ofInner? (e.addText t) outer rest
  | e, outer, .space t :: rest => ofInner? (e.addText t) outer rest
  | e, outer, .opening name attributes :: rest => do
    let inner ← OpenElement.start? e.bindings name attributes
    ofInner? inner (e :: outer) rest
  | e, outer, .closing name :: rest =>
    if name ≠ e.name then none
    else
      match outer with
      | [] => if isEnd rest then some e.close else none
      | parent :: others => ofInner? (parent.addChild e.close) others rest

def ofTokens? : List Token → Option Element
  | .space _ :: rest => ofTokens? rest
  | .opening name attributes :: rest => do
    ofInner? (← OpenElement.start? .initial name attributes) [] rest
  | _ => none

end Element

/-! The declaration at the front of a document. -/

/-- What a document says about itself in its first line. -/
structure Declaration where
  encoding : Option Text
  /-- Nothing outside of the document says anything about it. -/
  isComplete : Bool

namespace Declaration

/-- Letters, digits, points, hyphens and underscores. -/
def isValueChar (c : Char) : Bool := c.isAlphanum || c = '.' || c = '-' || c = '_'

/-- The pairs of a declaration, each behind white space. -/
def readPairs? : Nat → Text → Option (List (Text × Text))
  | 0, _ => none
  | fuel + 1, t =>
    let inner := Token.dropSpaces t
    if inner.isEmpty then some []
    else if inner.length = t.length then none
    else
      let isName (c : Char) : Bool := c ≠ '=' && !isSpace c
      let name := inner.takeWhile isName
      match Token.dropSpaces (inner.dropWhile isName) with
      | '=' :: rest =>
        match Token.dropSpaces rest with
        | [] => none
        | quote :: rest =>
          let value := rest.takeWhile isValueChar
          if quote ≠ '"' && quote ≠ '\'' || name.isEmpty then none
          else
            match rest.dropWhile isValueChar with
            | [] => none
            | c :: rest =>
              if c ≠ quote then none
              else do return (name, value) :: (← readPairs? fuel rest)
      | _ => none

/-- A version comes first, then an encoding and a word on other files, where they are given. -/
def ofPairs? (pairs : List (Text × Text)) : Option Declaration := do
  let (version, rest) ← pairs.head?.map fun pair => (pair, pairs.tail)
  if version.1 ≠ "version".toList then failure
  let (encoding, rest) ←
    match rest with
    | (name, value) :: more =>
      if name = "encoding".toList then
        if value.head?.any Char.isAlpha then pure (some value, more) else failure
      else pure (none, rest)
    | [] => pure (none, [])
  match rest with
  | [] => return ⟨encoding, false⟩
  | [(name, value)] =>
    if name = "standalone".toList && (value = "yes".toList || value = "no".toList) then
      return ⟨encoding, value = "yes".toList⟩
    else failure
  | _ => failure

/-- The declaration at the front of a text, if there is one, and what follows it. -/
def read? (t : Text) : Option (Option Declaration × Text) :=
  match Text.dropStart? "<?xml".toList t with
  | some (c :: rest) =>
    if isSpace c then do
      let (inner, rest) ← Token.readUntil? "?>".toList (c :: rest)
      return (some (← ofPairs? (← readPairs? (inner.length + 1) inner)), rest)
    else some (none, t)
  | _ => some (none, t)

end Declaration

namespace Element

def dropMark : Text → Text
  | '\ufeff' :: rest => rest
  | t => t

/-- What follows white space, comments and processing instructions. -/
def skipRemarks : Nat → Text → Text
  | 0, t => t
  | fuel + 1, t =>
    match Token.dropSpaces t with
    | '<' :: '?' :: rest => ((Token.skipInstruction? rest).map (skipRemarks fuel)).getD t
    | '<' :: '!' :: '-' :: '-' :: rest => ((Token.skipComment? rest).map (skipRemarks fuel)).getD t
    | rest => rest

/-- The root element of a document in characters. The encoding that it declares does not count. -/
def ofMarked? (t : Text) : Option Element := do
  let (declaration, rest) ← Declaration.read? (Text.normalizeLineEnds t)
  let start := skipRemarks rest.length rest
  if "<!DOCTYPE".toList.isPrefixOf start then
    let (doctype, rest) ← Doctype.read? (declaration.any (·.isComplete)) start
    ofTokens? (← Token.all? doctype.scope rest)
  else ofTokens? (← Token.all? .empty rest)

/-- The same, where a mark of the order of bytes may come first. -/
def ofText? (t : Text) : Option Element := ofMarked? (dropMark t)

end Element
end ApiPages.Markup
