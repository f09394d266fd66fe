import ApiPages.Yaml.Tag
import ApiPages.Yaml.Token

/-! The nodes of a YAML document, from its tokens. -/
namespace ApiPages.Yaml

/-- A value with its type: a scalar, a row of values, or pairs of keys and values. -/
inductive Node where
  | scalar (tag : Tag) (content : Wording)
  | sequence (tag : Tag) (items : List Node)
  | mapping (tag : Tag) (entries : List (Node × Node))

instance : Inhabited Node := ⟨.scalar .null (.text [])⟩

/-- Tokens still to be read, and what was declared before them. -/
structure NodeState where
  tokens : List Token
  /-- The nodes to which aliases may refer. -/
  anchors : List (Text × Node)
  /-- What the handles of tags stand for. -/
  handles : List (Text × Text)

/-- Reading nodes from tokens; it fails when the tokens do not fit. -/
abbrev NodeReader (α : Type) := StateT NodeState Option α

namespace NodeReader

def standardHandles : List (Text × Text) := [(['!'], ['!']), (['!', '!'], Tag.namespace_)]

def peek? : NodeReader (Option Token) := do return (← get).tokens.head?

def drop : NodeReader Unit := modify fun s => { s with tokens := s.tokens.tail }

def accept (token : Token) : NodeReader Bool := do
  if (← peek?) = some token then
    drop
    return true
  else return false

def expect (token : Token) : NodeReader Unit := do
  if !(← accept token) then failure

def isNext (tokens : List Token) : NodeReader Bool := do
  match ← peek? with
  | some token => return tokens.contains token
  | none => return false

def anchor? : NodeReader (Option Text) := do
  match ← peek? with
  | some (.anchor name) =>
    drop
    return some name
  | _ => return none

def tagName? : NodeReader (Option Text) := do
  match ← peek? with
  | some (.tag handle suffix) =>
    drop
    match handle with
    | none => return some suffix
    | some handle =>
      match (← get).handles.lookup handle with
      | some start => return some (start ++ suffix)
      | none => failure
  | _ => return none

/-- Anchor and tag in front of a node, in either order. -/
def properties : NodeReader (Option Text × Option Text) := do
  match ← anchor? with
  | some name => return (some name, ← tagName?)
  | none =>
    match ← tagName? with
    | some tag => return (← anchor?, some tag)
    | none => return (none, none)

def scalarTag (tag : Option Text) (content : Wording) (plain : Bool) : Tag :=
  match tag with
  | none => if plain then .ofPlainWording content else .text
  | some name => if name = ['!'] then .ofPlainWording content else .ofName name

def collectionTag (tag : Option Text) (standard : Tag) : Tag :=
  match tag with
  | none => standard
  | some name => if name = ['!'] then standard else .ofName name

/-- A node of which only the properties are written. -/
def emptyScalar (tag : Option Text) : Node :=
  let content : Wording := .text []
  .scalar (scalarTag tag content true) content

def emptyNode : Node := .scalar .null (.text [])

mutual

/-- A node. `inBlock` says that block collections may come; `indentless` that the entries of a
sequence may come without indentation. -/
def node (inBlock indentless : Bool) : Nat → NodeReader Node
  | 0 => failure
  | fuel + 1 => do
    match ← peek? with
    | some (.alias name) =>
      drop
      match (← get).anchors.lookup name with
      | some found => return found
      | none => failure
    | _ =>
      let (anchor, tag) ← properties
      let found ← content inBlock indentless (anchor.isSome || tag.isSome) tag fuel
      match anchor with
      | none => return found
      | some name =>
        let s ← get
        if (s.anchors.lookup name).isSome then failure
        set { s with anchors := (name, found) :: s.anchors }
        return found

def content (inBlock indentless hasProperties : Bool) (tag : Option Text) : Nat → NodeReader Node
  | 0 => failure
  | fuel + 1 => do
    match ← peek? with
    | some .blockEntry =>
      if indentless then
        return .sequence (collectionTag tag .sequence) (← indentlessItems fuel)
      else if hasProperties then return emptyScalar tag
      else failure
    | some (.scalar content plain) =>
      drop
      return .scalar (scalarTag tag content plain) content
    | some .flowSequenceStart =>
      drop
      return .sequence (collectionTag tag .sequence) (← flowItems true fuel)
    | some .flowMappingStart =>
      drop
      return .mapping (collectionTag tag .mapping) (← flowEntries true fuel)
    | some .blockSequenceStart =>
      if inBlock then
        drop
        return .sequence (collectionTag tag .sequence) (← blockItems fuel)
      else if hasProperties then return emptyScalar tag
      else failure
    | some .blockMappingStart =>
      if inBlock then
        drop
        return .mapping (collectionTag tag .mapping) (← blockEntries fuel)
      else if hasProperties then return emptyScalar tag
      else failure
    | _ => if hasProperties then return emptyScalar tag else failure

/-- A node that is not written when one of these tokens comes next. -/
def optionalNode (inBlock indentless : Bool) (ends : List Token) : Nat → NodeReader Node
  | 0 => failure
  | fuel + 1 => do
    if ← isNext ends then return emptyNode else node inBlock indentless fuel

def blockItems : Nat → NodeReader (List Node)
  | 0 => failure
  | fuel + 1 => do
    if ← accept .blockEntry then
      let item ← optionalNode true false [.blockEntry, .blockEnd] fuel
      return item :: (← blockItems fuel)
    else
      expect .blockEnd
      return []

/-- The entries of a block sequence without a mark of its end. -/
def indentlessItems : Nat → NodeReader (List Node)
  | 0 => failure
  | fuel + 1 => do
    if ← accept .blockEntry then
      let item ← optionalNode true false [.blockEntry, .key, .value, .blockEnd] fuel
      return item :: (← indentlessItems fuel)
    else return []

def blockEntries : Nat → NodeReader (List (Node × Node))
  | 0 => failure
  | fuel + 1 => do
    let ends : List Token := [.key, .value, .blockEnd]
    if ← accept .key then
      let key ← optionalNode true true ends fuel
      let value ←
        if ← accept .value then optionalNode true true ends fuel else pure emptyNode
      return (key, value) :: (← blockEntries fuel)
    else
      expect .blockEnd
      return []

def flowItems (first : Bool) : Nat → NodeReader (List Node)
  | 0 => failure
  | fuel + 1 => do
    if ← accept .flowSequenceEnd then return []
    if !first then expect .flowEntry
    if ← accept .key then
      let ends : List Token := [.flowEntry, .flowSequenceEnd]
      let key ← optionalNode false false (.value :: ends) fuel
      let value ← if ← accept .value then optionalNode false false ends fuel else pure emptyNode
      return .mapping .mapping [(key, value)] :: (← flowItems false fuel)
    else if ← accept .flowSequenceEnd then return []
    else
      let item ← node false false fuel
      return item :: (← flowItems false fuel)

def flowEntries (first : Bool) : Nat → NodeReader (List (Node × Node))
  | 0 => failure
  | fuel + 1 => do
    if ← accept .flowMappingEnd then return []
    if !first then expect .flowEntry
    let ends : List Token := [.flowEntry, .flowMappingEnd]
    if ← accept .key then
      let key ← optionalNode false false (.value :: ends) fuel
      let value ← if ← accept .value then optionalNode false false ends fuel else pure emptyNode
      return (key, value) :: (← flowEntries false fuel)
    else if ← accept .flowMappingEnd then return []
    else
      let key ← node false false fuel
      return (key, emptyNode) :: (← flowEntries false fuel)

end

/-- The directives in front of a document: at most one version, of the first edition, and at most
one declaration of each handle. -/
def directives (versioned : Bool) : List Token → NodeReader Unit
  | .versionDirective major :: rest => do
    if versioned || major ≠ 1 then failure
    drop
    directives true rest
  | .tagDirective handle start :: rest => do
    let s ← get
    if (s.handles.lookup handle).isSome then failure
    set { s with tokens := s.tokens.tail, handles := (handle, start) :: s.handles }
    directives versioned rest
  | .otherDirective :: rest => do
    drop
    directives versioned rest
  | _ => pure ()

/-- All marks of a document's end that come next are gone. -/
def dropEnds : NodeReader Unit :=
  modify fun s => { s with tokens := s.tokens.dropWhile (· = .documentEnd) }

/-- The node of a document with a mark of its start, after any directives. -/
def markedDocument (fuel : Nat) : NodeReader Node := do
  directives false (← get).tokens
  modify fun s => { s with handles := s.handles ++ standardHandles }
  expect .documentStart
  match ← peek? with
  | none => return emptyNode
  | some token =>
    let ends : Bool :=
      match token with
      | .documentStart => true
      | .documentEnd => true
      | .versionDirective _ => true
      | .tagDirective _ _ => true
      | .otherDirective => true
      | _ => false
    if ends then return emptyNode else node true false fuel

/-- The node of the only document, if there is one. Another document must not follow. -/
def single : NodeReader (Option Node) := do
  let fuel := 4 * (← get).tokens.length + 4
  match ← peek? with
  | none => return none
  | some token =>
    let marked : Bool :=
      match token with
      | .documentStart => true
      | .versionDirective _ => true
      | .tagDirective _ _ => true
      | .otherDirective => true
      | _ => false
    let root ←
      if marked then markedDocument fuel
      else do
        modify fun s => { s with handles := standardHandles }
        node true false fuel
    dropEnds
    if (← peek?).isSome then failure
    return some root

end NodeReader

/-- The node of the only document of a text; none when the text is blank. -/
def Node.ofText? (t : Text) : Reading (Option Node) := do
  let tokens ← Token.all t
  match NodeReader.single.run ⟨tokens, [], []⟩ with
  | some (root, _) => .ok root
  | none => .error .malformed

end ApiPages.Yaml
