import ApiPages.Render.TypePage

/-! All pages with their index, and the single document. -/
namespace ApiPages.Render

/-- The order of the index: by title in lower case, then by place. -/
def linkLe (a b : Link) : Bool :=
  let titleA := Text.lower a.title
  let titleB := Text.lower b.title
  if titleA = titleB then Text.le (a.href.getD []) (b.href.getD []) else Text.le titleA titleB

def indexLinks (ctx : Context) (types : List Entry) : List Link :=
  sortBy linkLe (types.map fun type => ctx.style.resolve type.identifier)

def index (ctx : Context) (types : List Entry) : Text :=
  finished ("# API Reference".toList :: [] ::
    (indexLinks ctx types).map fun link => '-' :: ' ' :: link.markdown)

/-- A file of a site. -/
structure Page where
  file : Text
  content : Text
  /-- The type whose page it is; the index has none. -/
  owner : Option Identifier

namespace Page

/-- The pages with one more, which takes the place of an earlier one of its name. -/
def put (page : Page) : List Page → List Page
  | [] => [page]
  | p :: ps => if p.file = page.file then page :: ps else p :: put page ps

def ownerOf? (pages : List Page) (file : Text) : Option Identifier :=
  (pages.find? fun p => p.file == file).bind Page.owner

end Page

def pageOf (ctx : Context) (type : Entry) : Page :=
  ⟨fileName ctx.options type.identifier, typePage ctx true type, some type.identifier⟩

def addPages (ctx : Context) (pages : List Page) : List Entry → List Page
  | [] => pages
  | type :: types => addPages ctx (Page.put (pageOf ctx type) pages) types

def addPagesNotices (ctx : Context) (pages : List Page) : List Entry → List Notice
  | [] => []
  | type :: types =>
    let page := pageOf ctx type
    let replaced : List Notice :=
      match Page.ownerOf? pages page.file with
      | none => []
      | some former => [.pageReplaced former type.identifier page.file]
    replaced ++ typePageNotices ctx type ++ addPagesNotices ctx (Page.put page pages) types

def indexFile : Text := "index.md".toList

def pages (ctx : Context) : List Page :=
  let types := ctx.catalog.types
  Page.put ⟨indexFile, index ctx types, none⟩ (addPages ctx [] types)

def pagesNotices (ctx : Context) : List Notice := addPagesNotices ctx [] ctx.catalog.types

/-- A type in the single document: a rule, its mark, its heading and its page. -/
def chapter (ctx : Context) (type : Entry) : List Text :=
  let heading := typeHeading ctx type
  let body := Text.trimEnd (typePage ctx false type)
  ["---".toList, [], anchorMark (headerSlug heading), [], "# ".toList ++ heading, []] ++
    unheaded body

def document (ctx : Context) : Text :=
  let types := ctx.catalog.types
  finished (Text.trimEnd (index ctx types) :: [] :: types.flatMap (chapter ctx))

/-- What rendering the single document leaves in the log. -/
def documentNotices (ctx : Context) : List Notice :=
  ctx.catalog.types.flatMap (typePageNotices ctx)

end ApiPages.Render
