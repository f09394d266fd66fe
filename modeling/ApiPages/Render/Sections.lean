import ApiPages.Render.Content

/-! The sections of an entry under their headings. A rendering is a list of texts that are put on
lines of their own; a text may have several lines. -/
namespace ApiPages.Render

open Markup

/-- Parameters or type parameters as a list of names and descriptions. -/
def namedSections (style : LinkStyle) (heading : Text) (sections : List Element) : List Text :=
  if sections.isEmpty then []
  else
    heading :: [] ::
      sections.flatMap (fun s =>
        Markdown.describedBullet ('`' :: s.attr "name".toList ++ ['`'])
          (prose style false (some s)))
      ++ [[]]

/-- A heading and a text with blank lines behind them; nothing without a text. -/
def headed (heading t : Text) : List Text := if t.isEmpty then [] else [heading, [], t, []]

def unheaded (t : Text) : List Text := if t.isEmpty then [] else [t, []]

/-- An exception: a link to its type and when it is thrown, as far as they are given. -/
def exception (style : LinkStyle) (e : Element) : List Text :=
  let cref := e.attr "cref".toList
  let description := prose style false (some e)
  if cref.isEmpty then if description.isEmpty then [] else Markdown.bullet description
  else Markdown.describedBullet (style.resolve cref).markdown description

def exceptions (style : LinkStyle) (content : Element) : List Text :=
  let found := content.childrenNamed "exception".toList
  if found.isEmpty then []
  else "**Exceptions**".toList :: [] :: found.flatMap (exception style) ++ [[]]

/-- The examples, each under the heading, with their code in fenced blocks. -/
def examples (style : LinkStyle) (content : Element) (heading : Text) : List Text :=
  (content.childrenNamed "example".toList).flatMap fun e =>
    headed heading (prose style true (some e))

def seeAlso (style : LinkStyle) (content : Element) (heading : Text) : List Text :=
  let links := ((content.childrenNamed "seealso".toList).map (reference style)).filter
    fun link => !link.isEmpty
  if links.isEmpty then []
  else heading :: [] :: links.map (fun link => '-' :: ' ' :: link) ++ [[]]

def textSection (style : LinkStyle) (content : Element) (heading tag : Text) : List Text :=
  headed heading (prose style false (content.child? tag))

def memberSections (style : LinkStyle) (content : Element) : List Text :=
  unheaded (prose style false (content.child? "summary".toList)) ++
    namedSections style "**Type Parameters**".toList (content.childrenNamed "typeparam".toList) ++
    namedSections style "**Parameters**".toList (content.childrenNamed "param".toList) ++
    textSection style content "**Returns**".toList "returns".toList ++
    textSection style content "**Value**".toList "value".toList ++
    exceptions style content ++
    textSection style content "**Remarks**".toList "remarks".toList ++
    examples style content "**Example**".toList ++
    seeAlso style content "**See also**".toList

def typeSections (style : LinkStyle) (content : Element) : List Text :=
  unheaded (prose style false (content.child? "summary".toList)) ++
    namedSections style "## Type Parameters".toList (content.childrenNamed "typeparam".toList) ++
    textSection style content "## Remarks".toList "remarks".toList ++
    examples style content "## Example".toList ++
    seeAlso style content "## See also".toList

end ApiPages.Render
