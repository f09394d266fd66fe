import ApiPages.Text.Quoted
import ApiPages.Value.Calendar

/-! What can be wrong with a YAML text. -/
namespace ApiPages.Yaml

/-- What is wrong with a YAML text or with a value in it. -/
inductive YamlError where
  /-- The text does not follow the rules of YAML, or asks for a value that settings cannot have. -/
  | malformed
  /-- An escape stands for no character. -/
  | noCharacter
  /-- An integer is asked for, and the text spells none in this base. -/
  | notInteger (base : Nat) (t : Text)
  /-- A number is asked for, and the text spells none. -/
  | notNumber (t : Text)
  /-- A number is asked for, and the text is empty. -/
  | emptyNumber
  /-- A truth value is asked for, and the text spells none. -/
  | notTruth (t : Text)
  /-- A time is asked for, and the text spells none. -/
  | notTime
  /-- A part of a time is out of range. -/
  | outOfRange (e : CalendarError)

/-- How many characters of a wrong integer a message shows, with its quotes. -/
def shownDigits : Nat := 200

def YamlError.message : YamlError → Text
  | .noCharacter => "chr() arg not in range(0x110000)".toList
  | .notInteger base t =>
    "invalid literal for int() with base ".toList ++ Text.ofNat base ++ ": ".toList ++
      (Text.quoted t).take shownDigits
  | .notNumber t => "could not convert string to float: ".toList ++ Text.quoted t
  | .emptyNumber => "string index out of range".toList
  | .notTruth t => Text.quoted t
  | .outOfRange e => e.message
  | _ => []

abbrev Reading (α : Type) := Except YamlError α

end ApiPages.Yaml
