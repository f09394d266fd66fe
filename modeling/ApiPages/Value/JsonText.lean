import ApiPages.Order
import ApiPages.Value.Basic

/-! Values written as JSON in ASCII: on one line with sorted keys, as the hash of a configuration
needs it, and indented in the order of the keys, as a report is written. -/
namespace ApiPages.Value

def jsonFloat : Binary64.Spelling := ⟨"Infinity".toList, "NaN".toList⟩

def unitEscape (n : Nat) : Text := '\\' :: 'u' :: Text.hexPadded 4 n

/-- One character of a JSON text: ASCII but for controls, DEL, quotes and backslashes as it is, the
rest escaped, above U+FFFF as a surrogate pair. -/
def jsonChar (c : Char) : Text :=
  let n := c.toNat
  if c = '"' || c = '\\' then ['\\', c]
  else if c = '\n' then ['\\', 'n']
  else if c = '\r' then ['\\', 'r']
  else if c = '\t' then ['\\', 't']
  else if n = 8 then ['\\', 'b']
  else if n = 12 then ['\\', 'f']
  else if 0x20 ≤ n && n < 0x7F then [c]
  else if n < 0x10000 then unitEscape n
  else unitEscape (0xD800 + (n - 0x10000) / 0x400) ++ unitEscape (0xDC00 + (n - 0x10000) % 0x400)

def jsonString (t : Text) : Text := '"' :: t.flatMap jsonChar ++ ['"']

/-- A text with halves of pairs in JSON, which has escapes for them. -/
def jsonLoose (t : Loose) : Text :=
  let written : List Text := t.points.map fun point =>
    match point with
    | .char c => jsonChar c
    | .half _ => unitEscape point.number
  '"' :: written.flatten ++ ['"']

/-- A scalar in JSON; one that JSON lacks is written as its plain text. -/
def jsonScalar : Scalar → Text
  | .null => "null".toList
  | .bool true => "true".toList
  | .bool false => "false".toList
  | .int i => Text.ofInt i
  | .float x => x.written jsonFloat
  | .loose t => jsonLoose t
  | s => jsonString s.plain

/-- A key in JSON: a text, or the text of a number or constant. Other keys are refused. -/
def jsonKey? : Scalar → Option Text
  | .text t => some (jsonString t)
  | .loose t => some (jsonLoose t)
  | .date _ => none
  | .instant _ => none
  | .bytes _ => none
  | s => some (jsonString (jsonScalar s))

/-- Whether one key comes before or with another, for keys that have an order: two texts, or two
numbers. -/
def keyLe? : Scalar → Scalar → Option Bool
  | .text a, .text b => some (Text.le a b)
  | a, b =>
    match a.wording?, b.wording?, a.number?, b.number? with
    | some v, some w, _, _ => some (CodePoint.le v.points w.points)
    | _, _, some (m, d), some (n, e) => some (m * e ≤ n * d)
    | _, _, _, _ => none

/-- Keyed parts in the order of their keys; several keys without a common order are refused. -/
def sortByKey? {α : Type} (entries : List (Scalar × α)) : Option (List (Scalar × α)) :=
  match entries with
  | [] => some []
  | [entry] => some [entry]
  | entry :: _ =>
    if entries.all fun other => (keyLe? entry.1 other.1).isSome then
      some (sortBy (fun a b => (keyLe? a.1 b.1).getD true) entries)
    else none

def jsonMember? (entry : Scalar × Text) : Option Text :=
  (jsonKey? entry.1).map fun key => key ++ ':' :: ' ' :: entry.2

mutual

/-- The value as one line of JSON with sorted keys, if its keys can be sorted and written. Whole numbers
are written out whatever they are: `Text.digitLimit` is not looked at here. -/
def canonicalJson? : Value → Option Text
  | .scalar s => some (jsonScalar s)
  | .list items => do
    let parts ← canonicalItems? items
    return '[' :: Text.join ", ".toList parts ++ [']']
  | .mapping entries => do
    let members ← (← sortByKey? (← canonicalEntries? entries)).mapM jsonMember?
    return '\x7b' :: Text.join ", ".toList members ++ ['\x7d']
  | .pair first second => do
    return '[' :: (← first.canonicalJson?) ++ ", ".toList ++ (← second.canonicalJson?) ++ [']']
  | .set members => some (jsonString (Value.set members).plain)

def canonicalItems? : List Value → Option (List Text)
  | [] => some []
  | v :: vs => do return (← v.canonicalJson?) :: (← canonicalItems? vs)

def canonicalEntries? : List (Scalar × Value) → Option (List (Scalar × Text))
  | [] => some []
  | (key, value) :: rest => do
    return (key, ← value.canonicalJson?) :: (← canonicalEntries? rest)

end

/-- The start of a line at a depth, two spaces for each level. -/
def indentation (depth : Nat) : Text := '\n' :: List.replicate (2 * depth) ' '

/-- Parts between two brackets, each on a line of its own. -/
def indentedBlock (depth : Nat) (opener closer : Char) (parts : List Text) : Text :=
  if parts.isEmpty then [opener, closer]
  else
    opener :: indentation (depth + 1) ++ Text.join (',' :: indentation (depth + 1)) parts ++
      indentation depth ++ [closer]

mutual

/-- The value as indented JSON, its keys in their own order. A key that is neither text nor number
nor constant is refused, and so is a value that JSON lacks. -/
def indentedJson? (depth : Nat) : Value → Option Text
  | .scalar (.date _) => none
  | .scalar (.instant _) => none
  | .scalar (.bytes _) => none
  | .scalar s => some (jsonScalar s)
  | .list items => do
    return indentedBlock depth '[' ']' (← indentedItems? (depth + 1) items)
  | .mapping entries => do
    let members ← (← indentedEntries? (depth + 1) entries).mapM jsonMember?
    return indentedBlock depth '\x7b' '\x7d' members
  | .pair first second => do
    let parts := [← first.indentedJson? (depth + 1), ← second.indentedJson? (depth + 1)]
    return indentedBlock depth '[' ']' parts
  | .set _ => none

def indentedItems? (depth : Nat) : List Value → Option (List Text)
  | [] => some []
  | v :: vs => do return (← v.indentedJson? depth) :: (← indentedItems? depth vs)

def indentedEntries? (depth : Nat) : List (Scalar × Value) → Option (List (Scalar × Text))
  | [] => some []
  | (key, value) :: rest => do
    return (key, ← value.indentedJson? depth) :: (← indentedEntries? depth rest)

end

end ApiPages.Value
