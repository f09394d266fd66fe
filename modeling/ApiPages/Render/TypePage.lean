import ApiPages.Inheritance
import ApiPages.Render.Sections

/-! Pages of types: the sections of a type, and those of its members under their headings. -/
namespace ApiPages.Render

/-- All that a rendering depends on. -/
structure Context where
  catalog : Catalog
  options : Options
  singleDocument : Bool
  strategy : Strategy

namespace Context

def style (ctx : Context) : LinkStyle := ⟨ctx.options, ctx.singleDocument⟩

/-- The documentation of an entry with all that it inherits. -/
def content (ctx : Context) (e : Entry) : Markup.Element :=
  Inheritance.content ctx.strategy ctx.catalog e

/-- What looking up the documentation of an entry leaves in the log. -/
def notices (ctx : Context) (e : Entry) : List Notice :=
  Inheritance.notices ctx.strategy ctx.catalog e

end Context

/-- The sections of a member with all that it inherits. -/
def memberDetails (ctx : Context) (e : Entry) : List Text :=
  memberSections ctx.style (ctx.content e)

def entryMark (e : Entry) : Text := anchorMark (memberAnchor e.identifier.id)

def member (ctx : Context) (e : Entry) : List Text :=
  entryMark e :: [] :: ("## ".toList ++ e.identifier.memberHeader) :: [] :: memberDetails ctx e

/-- A member as a bullet, with its sections indented under it line by line. -/
def bulletedMember (ctx : Context) (e : Entry) : List Text :=
  ("- ".toList ++ entryMark e ++ '`' :: e.identifier.memberHeader ++ ['`']) :: [] ::
    (memberDetails ctx e).flatMap fun t => (Text.lines t).map Markdown.indentLine

/-- Members of one kind and name: bullets under one heading when several of them are methods. -/
def group (ctx : Context) (g : Group) : List Text :=
  if 1 < (g.members.filter fun e => e.identifier.isMethod).length then
    ("## ".toList ++ g.key) :: [] :: g.members.flatMap (bulletedMember ctx)
  else g.members.flatMap (member ctx)

def groups (ctx : Context) (type : Entry) : List Group :=
  Group.ofEntries (ctx.catalog.membersOf type.identifier)

/-- Texts on lines of their own, without blanks at the end but for one line feed. -/
def finished (parts : List Text) : Text := Text.trimEnd (Text.unlines parts) ++ ['\n']

def typeHeading (ctx : Context) (type : Entry) : Text :=
  Identifier.displayName ctx.options type.identifier.id

/-- The page of a type. Where the heading stands elsewhere it is left out. -/
def typePage (ctx : Context) (withHeading : Bool) (type : Entry) : Text :=
  finished ((if withHeading then ["# ".toList ++ typeHeading ctx type, []] else []) ++
    typeSections ctx.style (ctx.content type) ++ (groups ctx type).flatMap (group ctx))

/-- What rendering the page of a type leaves in the log. -/
def typePageNotices (ctx : Context) (type : Entry) : List Notice :=
  ctx.notices type ++ (groups ctx type).flatMap fun g => g.members.flatMap ctx.notices

end ApiPages.Render
