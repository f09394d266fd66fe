import ApiPages.Text.Quoted

/-! The switches of the command line, and what is wrong with a row of arguments. -/
namespace ApiPages.Arguments

/-- A switch of the command line. -/
inductive Switch where
  | help
  | single
  | fileNames
  | rootNamespace
  | trimRoot
  | codeLanguage
  | config
  | report
  | dryRun
  | verbose
  deriving DecidableEq

/-- What follows a switch. -/
inductive Parameter where
  | nothing
  | text
  | oneOf (choices : List Text)

namespace Switch

/-- The switches in the order in which they are listed. -/
def all : List Switch :=
  [.help, .single, .fileNames, .rootNamespace, .trimRoot, .codeLanguage, .config, .report, .dryRun,
   .verbose]

def name : Switch → Text
  | .help => "--help".toList
  | .single => "--single".toList
  | .fileNames => "--file-names".toList
  | .rootNamespace => "--root-namespace".toList
  | .trimRoot => "--trim-root-in-file-names".toList
  | .codeLanguage => "--code-language".toList
  | .config => "--config".toList
  | .report => "--report".toList
  | .dryRun => "--dry-run".toList
  | .verbose => "--verbose".toList

/-- The letter that stands for a switch. Only switches that nothing follows have one. -/
def letter? : Switch → Option Char
  | .help => some 'h'
  | .verbose => some 'v'
  | _ => none

def ofLetter? (c : Char) : Option Switch := all.find? fun s => s.letter? == some c

def ofName? (t : Text) : Option Switch := all.find? fun s => s.name == t

def startingWith (t : Text) : List Switch := all.filter fun s => t.isPrefixOf s.name

def parameter : Switch → Parameter
  | .fileNames => .oneOf ["verbatim".toList, "clean".toList, "clean-generics".toList]
  | .rootNamespace => .text
  | .codeLanguage => .text
  | .config => .text
  | .report => .text
  | _ => .nothing

def title (s : Switch) : Text :=
  match s.letter? with
  | some c => '-' :: c :: '/' :: s.name
  | none => s.name

end Switch

/-- Why a row of arguments is refused. -/
inductive UsageError where
  /-- Several switches begin like this. -/
  | ambiguous (given : Text) (candidates : List Switch)
  | valueMissing (switch : Switch)
  /-- A switch that nothing follows is given a value. -/
  | valueIgnored (switch : Switch) (value : Text)
  | notAChoice (switch : Switch) (value : Text) (choices : List Text)
  | operandsMissing (names : List Text)
  | unrecognized (given : List Text)

def aboutSwitch (s : Switch) : Text := "argument ".toList ++ s.title ++ ": ".toList

def UsageError.message : UsageError → Text
  | .ambiguous given candidates =>
    "ambiguous option: ".toList ++ given ++ " could match ".toList ++
      Text.join ", ".toList (candidates.map Switch.name)
  | .valueMissing s => aboutSwitch s ++ "expected one argument".toList
  | .valueIgnored s value =>
    aboutSwitch s ++ "ignored explicit argument ".toList ++ Text.quoted value
  | .notAChoice s value choices =>
    aboutSwitch s ++ "invalid choice: ".toList ++ Text.quoted value ++ " (choose from ".toList ++
      Text.join ", ".toList (choices.map Text.quoted) ++ [')']
  | .operandsMissing names =>
    "the following arguments are required: ".toList ++ Text.join ", ".toList names
  | .unrecognized given => "unrecognized arguments: ".toList ++ Text.join [' '] given

end ApiPages.Arguments
