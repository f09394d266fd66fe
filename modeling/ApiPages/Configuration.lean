import ApiPages.Job
import ApiPages.Options
import ApiPages.Readers
import ApiPages.Text.Lowercase
import ApiPages.Value.Overlay

/-! The configuration of a run: the defaults, with the settings of a YAML file laid over them. -/
namespace ApiPages

/-- Why a configuration cannot be loaded. -/
inductive ConfigurationError where
  | file (error : Files.FileError)
  /-- The bytes of the file are no text. -/
  | notText
  | yaml (error : Yaml.YamlError)
  /-- The file holds something, but no settings by name. -/
  | notMapping

namespace Configuration

def renderKey : Text := "render".toList

/-- The section that says what is written, and where the report goes. -/
def outputKey : Text := "output".toList

def singleKey : Text := "single_file".toList
def reportKey : Text := "report_path".toList

def default : Value :=
  .record [
    (renderKey, Options.default.toValue),
    (outputKey, .record [(singleKey, .bool false), (reportKey, .null)])]

/-- The settings that a file spells. A file that spells nothing, or nothing that is true, has
none. -/
def settings (readers : Readers) (content : List UInt8) : Except ConfigurationError Value :=
  match Files.decode? content with
  | none => .error .notText
  | some t =>
    match readers.value (Text.normalizeLineEnds t) with
    | .error e => .error (.yaml e)
    | .ok value => .ok (if value.isTrue then value else .mapping [])

def ofSettings (settings : Value) : Except ConfigurationError Value :=
  match deepMerge default settings with
  | .ok config => .ok config
  | .error _ => .error .notMapping

/-- The configuration of a file, if one is named; a file that is not there changes nothing. -/
def load (readers : Readers) (path : Option Text) : Job ConfigurationError Value := do
  match path.filter fun t => !t.isEmpty with
  | none => return default
  | some t =>
    let path := Files.Path.ofText t
    let tree ← Job.files
    let here (e : Files.FileError) := ConfigurationError.file e
    match ← Job.ofExcept ((tree.find? path).mapError here) with
    | none =>
      Job.note [.configMissing path]
      return default
    | some _ =>
      let content ← Job.ofExcept ((tree.read path).mapError here)
      Job.ofExcept (settings readers content >>= ofSettings)

/-- What stands under a key; nothing if the key is not there. -/
def setting (entries : Entries) (key : Text) : Value := (entries.get? (.text key)).getD .null

def styleSpellings : List (Text × FileNameStyle) := [
  ("verbatim".toList, .verbatim),
  ("clean".toList, .cleanGenerics),
  ("clean-generics".toList, .cleanGenerics),
  ("cleangenerics".toList, .cleanGenerics)]

/-- The style that a value spells. Case, blanks around it, and the choice between hyphens and
underscores do not count. -/
def styleOf (value : Value) : Except OptionError FileNameStyle :=
  let spelling := Text.exchange '_' '-' (Text.lower (Text.trim value.plain))
  match styleSpellings.lookup spelling with
  | some style => .ok style
  | none => .error (.unknownSpelling value)

/-- The options that a section sets. Settings that are false count as not set. -/
def optionsOfSection (entries : Entries) : Except OptionError Options := do
  let style := setting entries Options.styleKey
  let language := setting entries Options.languageKey
  let style ← if style.isTrue then styleOf style else pure .verbatim
  Options.of (.text style.name) (setting entries Options.rootKey)
    (if language.isTrue then language else .text Options.defaultLanguage)
    (.bool (setting entries Options.trimKey).isTrue)

/-- The options of a configuration. A section that is false sets none. -/
def options (config : Value) : Except OptionError Options :=
  match config with
  | .mapping entries =>
    match setting entries renderKey with
    | .mapping render => optionsOfSection render
    | value => if value.isTrue then .error (.notSection value) else optionsOfSection []
  | value => .error (.notSection value)

def outputSettings (config : Value) : Entries :=
  match config with
  | .mapping entries =>
    match setting entries outputKey with
    | .mapping output => output
    | _ => []
  | _ => []

/-- Whether there will be a single document, if the configuration says so or not. -/
def singleDocument? (config : Value) : Option Bool :=
  ((outputSettings config).get? (.text singleKey)).map Value.isTrue

def reportPath (config : Value) : Value := setting (outputSettings config) reportKey

end Configuration
end ApiPages
