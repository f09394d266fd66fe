import ApiPages.Markup.Element
import ApiPages.Value.Basic
import ApiPages.Yaml.Error

/-! How the files of a run are read. -/
namespace ApiPages

/-- The readers that a run is given: of the bytes of an export, and of the text of a file of settings. -/
structure Readers where
  element : List UInt8 → Except Markup.ReadError Markup.Element
  value : Text → Except Yaml.YamlError Value

end ApiPages
