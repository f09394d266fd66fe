import ApiPages.Files.Tree
import ApiPages.Identifier

/-! Notices that a run leaves in its log. -/
namespace ApiPages

/-- How much a notice matters. -/
inductive Level where
  | debug
  | info
  | warning
  deriving DecidableEq

def Level.name : Level → Text
  | .debug => "DEBUG".toList
  | .info => "INFO".toList
  | .warning => "WARNING".toList

/-- What a run has to tell. -/
inductive Notice where
  /-- A record takes the place of an earlier one with its identifier. -/
  | repeatedMember (identifier : Identifier)
  | membersLoaded (count : Nat)
  | inherits (heir source : Identifier)
  | nothingInherited (identifier : Identifier)
  /-- The page of one type takes the place of another's. -/
  | pageReplaced (former type : Identifier) (file : Text)
  | pageWritten (path : Files.Path)
  | pagesWritten (count : Nat) (directory : Files.Path)
  | documentWritten (path : Files.Path)
  | configMissing (path : Files.Path)
  /-- The place for a report, as it is shown, and why it is not written. -/
  | reportFailed (place : Text) (error : Files.FileError)

namespace Notice

def level : Notice → Level
  | .repeatedMember _ => .debug
  | .membersLoaded _ => .info
  | .inherits _ _ => .debug
  | .nothingInherited _ => .debug
  | .pageReplaced _ _ _ => .warning
  | .pageWritten _ => .debug
  | .pagesWritten _ _ => .info
  | .documentWritten _ => .info
  | .configMissing _ => .warning
  | .reportFailed _ _ => .warning

def source (notice : Notice) : Text :=
  "xmldoc2md.".toList ++
    match notice with
    | .repeatedMember _ => "documentation_model".toList
    | .membersLoaded _ => "documentation_model".toList
    | .inherits _ _ => "effective_content".toList
    | .nothingInherited _ => "effective_content".toList
    | .pageReplaced _ _ _ => "markdown_renderer".toList
    | .pageWritten _ => "markdown_renderer".toList
    | .pagesWritten _ _ => "markdown_renderer".toList
    | .documentWritten _ => "markdown_renderer".toList
    | .configMissing _ => "load_config".toList
    | .reportFailed _ _ => "run_report".toList

def message : Notice → Text
  | .repeatedMember identifier =>
    "Duplicate member ".toList ++ identifier ++ ", keeping the last record".toList
  | .membersLoaded count => "Loaded ".toList ++ Text.ofNat count ++ " documented members".toList
  | .inherits heir source => heir ++ " inherits documentation from ".toList ++ source
  | .nothingInherited identifier => "No inheritance source for ".toList ++ identifier
  | .pageReplaced former type file =>
    former ++ " and ".toList ++ type ++ " both map to ".toList ++ file ++
      "; keeping ".toList ++ type
  | .pageWritten path => "Wrote ".toList ++ path.text
  | .pagesWritten count directory =>
    "Wrote ".toList ++ Text.ofNat count ++ " Markdown files to ".toList ++ directory.text
  | .documentWritten path => "Wrote single-file Markdown to ".toList ++ path.text
  | .configMissing path =>
    "Config file ".toList ++ path.text ++ " not found; using defaults".toList
  | .reportFailed place error =>
    "Failed to write report ".toList ++ place ++ ": ".toList ++ error.message

def line (notice : Notice) : Text :=
  notice.level.name ++ ' ' :: notice.source ++ ": ".toList ++ notice.message ++ ['\n']

end Notice
end ApiPages
