import ApiPages.Conversion
import ApiPages.Markup.Encoding
import ApiPages.Yaml.Reader

/-! Runs of the program: from the arguments to what is printed, logged and written. -/
namespace ApiPages

/-- Exports are XML documents, and settings are spelled in YAML. -/
def Readers.standard : Readers := ⟨Markup.Element.ofBytes, Yaml.read⟩

/-- How a run ends. -/
inductive Ending where
  | finished (report : Report)
  | helpWanted
  | refused (error : Arguments.UsageError)
  | stopped (error : ConversionError)

/-- A run that has come to its end. -/
structure Run where
  ending : Ending
  world : World
  isVerbose : Bool

namespace Run

def ofArguments (readers : Readers) (arguments : List Text) (files : Files.Tree) : Run :=
  let world := World.ofFiles files
  match Request.ofArguments arguments with
  | .error .helpWanted => ⟨.helpWanted, world, false⟩
  | .error (.refused error) => ⟨.refused error, world, false⟩
  | .ok request =>
    match (Conversion.run readers request).runOn world with
    | (.ok report, world) => ⟨.finished report, world, request.isVerbose⟩
    | (.error error, world) => ⟨.stopped error, world, request.isVerbose⟩

/-- The lines of the log that are shown: all in a verbose run, else warnings. -/
def shownLog (run : Run) : Text :=
  (run.world.log.filter fun notice => run.isVerbose || notice.level = .warning).flatMap Notice.line

def printed (run : Run) : Text := run.world.printed.flatMap fun line => line ++ ['\n']

end Run

def programName : Text := "xmldoc2md".toList

def refusal (error : Arguments.UsageError) : Text :=
  programName ++ ": error: ".toList ++ error.message

def parameterHelp : Arguments.Parameter → Text
  | .nothing => []
  | .text => " TEXT".toList
  | .oneOf choices => ' ' :: Text.join ['|'] choices

/-- The help: how the program is called, and the switches. -/
def help : Text :=
  Text.unlines (("usage: ".toList ++ programName ++ " [switches] xml out".toList) ::
    Arguments.Switch.all.map fun s => "  ".toList ++ s.title ++ parameterHelp s.parameter)

end ApiPages
