import ApiPages.Text.Blank
import ApiPages.Value.Basic

/-! Options of a rendering: how pages are named, which namespace is left out of visible names, and
what language code blocks are tagged with. -/
namespace ApiPages

/-- How a type identifier becomes a file name. -/
inductive FileNameStyle where
  /-- The identifier as it stands. -/
  | verbatim
  /-- The identifier without arity markers, its braces as brackets. -/
  | cleanGenerics
  deriving DecidableEq

namespace FileNameStyle

def name : FileNameStyle → Text
  | .verbatim => "verbatim".toList
  | .cleanGenerics => "clean-generics".toList

def all : List FileNameStyle := [.verbatim, .cleanGenerics]

def ofName? (t : Text) : Option FileNameStyle := all.find? fun style => style.name == t

end FileNameStyle

/-- The options of a rendering, in normal form. -/
structure Options where
  fileNameStyle : FileNameStyle
  /-- The namespace left out of visible names; never empty. -/
  rootWording : Option Wording
  /-- The tag of code blocks; never empty. -/
  languageWording : Wording
  /-- Whether file names leave the namespace out too. Any value may be given, and only its truth
  counts. -/
  trimsFileNames : Value

/-- Why no options can be made. -/
inductive OptionError where
  /-- No file name style of this name. -/
  | unknownStyle (value : Value)
  /-- No spelling of a file name style in a configuration. -/
  | unknownSpelling (value : Value)
  /-- The namespace or language is neither a text nor empty. -/
  | notText (value : Value)
  /-- No option of this name. -/
  | unknownOption (name : Text)
  /-- A value without entries stands in place of a section. -/
  | notSection (value : Value)

def OptionError.message : OptionError → Text
  | .unknownStyle value =>
    "Unknown file name style: ".toList ++ value.shown ++ " (expected one of ".toList ++
      Text.join ", ".toList (FileNameStyle.all.map FileNameStyle.name) ++ [')']
  | .unknownSpelling value =>
    "Unknown file name style: ".toList ++ value.shown ++ " (expected verbatim or clean)".toList
  | _ => []

namespace Options

def defaultLanguage : Text := "csharp".toList

/-- The namespace that names can begin with: none does with one that has halves of surrogate pairs. -/
def root (o : Options) : Option Text := o.rootWording.bind Wording.text?

/-- The tag as code blocks show it. A page with halves of surrogate pairs in it cannot be written; escapes
stand for them here. -/
def language (o : Options) : Text := o.languageWording.escaped

/-- A text, where every false value stands for the empty one. -/
def wordingOrEmpty (value : Value) : Except OptionError Wording :=
  if value.isTrue then
    match value.wording? with
    | some wording => .ok wording
    | none => .error (.notText value)
  else .ok (.text [])

/-- Options from given values: blanks around namespace and language and dots around the namespace
are dropped, and what is then empty counts as not given. -/
def of (style root language trimsFileNames : Value) : Except OptionError Options := do
  let fileNameStyle ←
    match style with
    | .scalar (.text name) =>
      match FileNameStyle.ofName? name with
      | some fileNameStyle => pure fileNameStyle
      | none => throw (.unknownStyle style)
    | _ => throw (.unknownStyle style)
  let root := ((← wordingOrEmpty root).trimBoth Text.isBlank).trimBoth (· = '.')
  let language := (← wordingOrEmpty language).trimBoth Text.isBlank
  return {
    fileNameStyle
    rootWording := if root.isEmpty then none else some root
    languageWording := if language.isEmpty then .text defaultLanguage else language
    trimsFileNames }

def default : Options := ⟨.verbatim, none, .text defaultLanguage, .bool false⟩

/-- The names of the options, in the order in which they are listed. -/
def styleKey : Text := "file_name_style".toList
def rootKey : Text := "root_namespace_to_trim".toList
def languageKey : Text := "code_block_language".toList
def trimKey : Text := "trim_root_namespace_in_file_names".toList
def keys : List Text := [styleKey, rootKey, languageKey, trimKey]

/-- Options from named values; a name that is not there takes its default. -/
def ofNamed (fields : List (Text × Value)) : Except OptionError Options :=
  match fields.find? fun field => !keys.contains field.1 with
  | some (name, _) => .error (.unknownOption name)
  | none =>
    let given (key : Text) (fallback : Value) : Value := (fields.lookup key).getD fallback
    of (given styleKey (.text default.fileNameStyle.name)) (given rootKey .null)
      (given languageKey (.text defaultLanguage)) (given trimKey (.bool false))

def toValue (o : Options) : Value :=
  .record [
    (styleKey, .text o.fileNameStyle.name),
    (rootKey, match o.rootWording with
      | none => .null
      | some root => .wording root),
    (languageKey, .wording o.languageWording),
    (trimKey, o.trimsFileNames)]

end Options
end ApiPages
