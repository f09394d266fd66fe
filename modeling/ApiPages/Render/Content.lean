import ApiPages.Link
import ApiPages.Markdown
import ApiPages.Markup.Element
import ApiPages.Prose

/-! Documentation markup as Markdown: first the raw text of a section, then its prose in normal
form. -/
namespace ApiPages.Render

open Markup

/-- How links are made: by which options, and for one document or for a page for each type. -/
structure LinkStyle where
  options : Options
  singleDocument : Bool

def LinkStyle.resolve (style : LinkStyle) (reference : Text) : Link :=
  Reference.resolve style.options style.singleDocument reference

/-- A reference as a link, inline code or text. Its own text is the title of the link. -/
def reference (style : LinkStyle) (e : Element) : Text :=
  let title := Text.collapse e.innerText
  let cref := e.attr "cref".toList
  let href := e.attr "href".toList
  let keyword := e.attr "langword".toList
  if !cref.isEmpty then
    let link := style.resolve cref
    (if title.isEmpty then link else { link with title := title }).markdown
  else if !href.isEmpty then
    '[' :: (if title.isEmpty then href else title) ++ "](".toList ++ href ++ [')']
  else if !keyword.isEmpty then Markdown.inlineCode keyword
  else title

/-- Two line feeds on either side, so that a text becomes a block of its own. -/
def block (t : Text) : Text := "\n\n".toList ++ t ++ "\n\n".toList

/-- Code as a fenced block: when it is asked for, or when it does not fit on one line. -/
def code (style : LinkStyle) (inline : Bool) (content : Text) : Text :=
  if inline && !(Text.trim content).contains '\n' then Markdown.inlineCode (Text.trim content)
  else block (Markdown.codeBlock style.options.language content)

/-- A list item: its term and its description. -/
structure Item where
  term : Text
  description : Text

/-- An item on one line: what it has of term and description, with a dash between the two. -/
def Item.line (item : Item) : Text :=
  if item.term.isEmpty then item.description
  else if item.description.isEmpty then item.term
  else "**".toList ++ item.term ++ "** — ".toList ++ item.description

/-- The lines of items with numbers from a first one on. -/
def numberedLines : Nat → List Item → List Text
  | _, [] => []
  | n, item :: items => (Text.ofNat n ++ ". ".toList ++ item.line) :: numberedLines (n + 1) items

/-- A list in Markdown: a table, or lines with numbers or hyphens. -/
def list (type : Text) (header : Option Item) (items : List Item) : Text :=
  if type = "table".toList then
    let titles := header.getD ⟨[], []⟩
    let orDefault (t default : Text) : Text := if t.isEmpty then default else t
    Markdown.table
      [orDefault titles.term "Term".toList, orDefault titles.description "Description".toList]
      (items.map fun item => [item.term, item.description])
  else if type = "number".toList then Text.unlines (numberedLines 1 items)
  else Text.unlines (items.map fun item => '-' :: ' ' :: item.line)

/-- What kind of markup a tag stands for. -/
inductive Kind where
  | reference
  | parameter
  | inlineCode
  | code
  | paragraph
  | list
  | nothing
  | other
  deriving DecidableEq

def kinds : List (Text × Kind) :=
  [("see".toList, .reference), ("seealso".toList, .reference),
   ("paramref".toList, .parameter), ("typeparamref".toList, .parameter),
   ("c".toList, .inlineCode), ("code".toList, .code), ("para".toList, .paragraph),
   ("list".toList, .list), ("inheritdoc".toList, .nothing)]

def Kind.ofTag (tag : Text) : Kind := (kinds.lookup tag).getD .other

mutual

/-- The raw Markdown of an element. `pending` asks for a fenced block from the first code that
comes; the answer says whether it is still open. -/
def element (style : LinkStyle) (pending : Bool) : Element → Text × Bool
  | ⟨tag, attributes, text, inner, tail⟩ =>
    let e : Element := ⟨tag, attributes, text, inner, tail⟩
    match Kind.ofTag tag with
    | .reference => (reference style e, pending)
    | .parameter => (Markdown.inlineCode (e.attr "name".toList), pending)
    | .inlineCode => (code style (!pending) e.innerText, false)
    | .code => (code style false e.innerText, false)
    | .paragraph =>
      let (raw, pending) := children style pending inner
      (block (text ++ raw), pending)
    | .list =>
      let type := (e.attr? "type".toList).getD "bullet".toList
      (block (list type (header? style inner) (items style inner)), pending)
    | .nothing => ([], pending)
    | .other =>
      let (raw, pending) := children style pending inner
      (text ++ raw, pending)

/-- The raw Markdown of elements and of the texts behind them. -/
def children (style : LinkStyle) (pending : Bool) : List Element → Text × Bool
  | [] => ([], pending)
  | e :: es =>
    let (first, pending) := element style pending e
    let (rest, pending) := children style pending es
    (first ++ e.tail ++ rest, pending)

def inlineOf (style : LinkStyle) (tag : Text) : List Element → Option Text
  | [] => none
  | ⟨t, _, text, inner, _⟩ :: es =>
    if t = tag then some (Text.collapse (text ++ (children style false inner).1))
    else inlineOf style tag es

/-- The items of a list. One that has neither term nor description is all description. -/
def items (style : LinkStyle) : List Element → List Item
  | [] => []
  | ⟨tag, _, text, inner, _⟩ :: es =>
    if tag = "item".toList then
      let item : Item :=
        match inlineOf style "term".toList inner, inlineOf style "description".toList inner with
        | none, none => ⟨[], Text.collapse (text ++ (children style false inner).1)⟩
        | term, description => ⟨term.getD [], description.getD []⟩
      item :: items style es
    else items style es

def header? (style : LinkStyle) : List Element → Option Item
  | [] => none
  | ⟨tag, _, _, inner, _⟩ :: es =>
    if tag = "listheader".toList then
      some ⟨(inlineOf style "term".toList inner).getD [],
        (inlineOf style "description".toList inner).getD []⟩
    else header? style es

end

/-- The raw Markdown of what is inside a section. With `preferBlock` the first code becomes a fenced
block even when it fits on one line. -/
def raw (style : LinkStyle) (preferBlock : Bool) (section_ : Option Element) : Text :=
  match section_ with
  | none => []
  | some e => e.text ++ (children style preferBlock e.children).1

def prose (style : LinkStyle) (preferBlock : Bool) (section_ : Option Element) : Text :=
  Prose.normalize (raw style preferBlock section_)

end ApiPages.Render
