import ApiPages.Text.Blank

/-! Pieces of Markdown: fenced code, inline code, tables and bullets. -/
namespace ApiPages.Markdown

def dropBlankEnds (lines : List Text) : List Text :=
  ((lines.dropWhile Text.isBlankText).reverse.dropWhile Text.isBlankText).reverse

/-- Fenced code: blank lines at its ends are dropped, all else stays as it is. -/
def codeBlock (language code : Text) : Text :=
  "```".toList ++ language ++ '\n' :: Text.unlines (dropBlankEnds (Text.lines code)) ++
    "\n```".toList

/-- Inline code, between double backticks and spaces when it has a backtick itself. -/
def inlineCode (t : Text) : Text :=
  if t.contains '`' then "`` ".toList ++ t ++ " ``".toList else '`' :: t ++ ['`']

def cell (t : Text) : Text :=
  (Text.collapse t).flatMap fun c => if c = '|' then ['\\', '|'] else [c]

def tableRow (cells : List Text) : Text :=
  "| ".toList ++ Text.join " | ".toList cells ++ " |".toList

/-- A table with a header; nothing when it has no rows. -/
def table (headers : List Text) (rows : List (List Text)) : Text :=
  if rows.isEmpty then []
  else
    Text.unlines (tableRow (headers.map cell) :: tableRow (headers.map fun _ => "---".toList) ::
      rows.map fun row => tableRow (row.map cell))

/-- A line moved under a bullet; an empty line stays empty. -/
def indentLine (line : Text) : Text := if line.isEmpty then [] else ' ' :: ' ' :: line

def bullet (t : Text) : List Text :=
  match Text.lines t with
  | [] => []
  | first :: rest => ('-' :: ' ' :: first) :: rest.map indentLine

/-- A label and a text as the lines of one bullet. Text that opens with fenced code starts on a
line of its own. -/
def describedBullet (label t : Text) : List Text :=
  if t.isEmpty then bullet label
  else if "```".toList.isPrefixOf t then bullet (label ++ " —\n\n".toList ++ t)
  else bullet (label ++ " — ".toList ++ t)

end ApiPages.Markdown
