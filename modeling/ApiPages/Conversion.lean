import ApiPages.Arguments.Request
import ApiPages.Configuration
import ApiPages.Digest
import ApiPages.Render.Output
import ApiPages.Report

/-! The conversion of an export into Markdown, from a request to the report. -/
namespace ApiPages

/-- Why a conversion comes to no good end. -/
inductive ConversionError where
  | sourceMissing (path : Files.Path)
  | file (error : Files.FileError)
  | configuration (error : ConfigurationError)
  | options (error : OptionError)
  /-- Nothing says whether there is to be a single document. -/
  | modeMissing
  | load (error : LoadError)
  /-- The configuration has no digest. -/
  | noDigest
  /-- Nothing says where to write. -/
  | outputMissing
  /-- The report is to go to a place that is no path. -/
  | notPath (value : Value)
  | report (error : ReportError)

/-- What the user is told when the request cannot be met as it stands; nothing when the error is of
another kind. -/
def ConversionError.complaint? : ConversionError → Option Text
  | .sourceMissing path => some ("XML documentation file not found: ".toList ++ path.text)
  | .options (.unknownStyle value) => some (OptionError.unknownStyle value).message
  | .options (.unknownSpelling value) => some (OptionError.unknownSpelling value).message
  | .load error => if error.cause.isTold then some error.message else none
  | _ => none

/-- What is said of an error that ends a run. -/
def ConversionError.message (error : ConversionError) : Text :=
  match error with
  | .file e => e.message
  | .configuration (.file e) => e.message
  | .configuration (.yaml e) => "The configuration cannot be read. ".toList ++ e.message
  | .configuration _ => "The configuration cannot be read.".toList
  | .load e => e.message
  | .report (.file e) => e.message
  | .report (.unencodable e) => e.message
  | other => other.complaint?.getD "The configuration and the arguments do not fit.".toList

namespace Request

def given (key : Text) (value : Option Value) : List (Text × Value) :=
  (value.map fun v => (key, v)).toList

def settings (request : Request) : Value :=
  let flag (b : Bool) : Option Value := if b then some (.bool true) else none
  .record [
    (Configuration.renderKey, .record (
      given Options.styleKey (request.fileNames.map Value.text) ++
      given Options.rootKey (request.rootNamespace.map Value.text) ++
      given Options.languageKey (request.codeLanguage.map Value.text) ++
      given Options.trimKey (flag request.trimsRoot))),
    (Configuration.outputKey, .record (given Configuration.singleKey (flag request.single)))]

/-- A configuration with the settings of a request laid over it. -/
def configured (request : Request) (config : Value) : Value :=
  Value.overlay (some config) request.settings

end Request

namespace Conversion

/-- All that a conversion works from. -/
structure Plan where
  context : Render.Context
  config : Value
  configHash : Text

/-- A plan from the files that are there; nothing is changed. -/
def prepare (readers : Readers) (request : Request) : Job ConversionError Plan := do
  let tree ← Job.files
  if !(← Job.ofExcept ((tree.isFile request.source).mapError .file)) then
    throw (.sourceMissing request.source)
  let loaded ← Job.withError .configuration (Configuration.load readers request.config)
  let config := request.configured loaded
  let options ← Job.ofExcept ((Configuration.options config).mapError .options)
  match Configuration.singleDocument? config with
  | none => throw .modeMissing
  | some singleDocument =>
    let root ← Job.ofExcept ((Catalog.documentOfFile readers tree request.source).mapError .load)
    Job.note (Catalog.loadingNotices root)
    match configHash? config with
    | none => throw .noDigest
    | some configHash =>
      return ⟨⟨.ofDocument root, options, singleDocument, .heuristic⟩, config, configHash⟩

def pagesTo (count : Nat) (directory : Files.Path) : Text :=
  Text.ofNat count ++ " Markdown files to ".toList ++ directory.text

def writeDocument (ctx : Render.Context) (output : Files.Path) :
    Job ConversionError (List Files.Path) := do
  Job.withError .file (Render.writeDocument ctx output)
  Job.print ("Wrote single-file Markdown to ".toList ++ output.text)
  return [output]

def planDocument (output : Files.Path) : Job ConversionError (List Files.Path) := do
  Job.print ("[dry-run] would write ".toList ++ output.text)
  return [output]

def writePages (ctx : Render.Context) (output : Files.Path) :
    Job ConversionError (List Files.Path) := do
  let written ← Job.withError .file (Render.writePages ctx output)
  Job.print ("Wrote ".toList ++ pagesTo written.length output)
  return written

def planPages (ctx : Render.Context) (output : Files.Path) :
    Job ConversionError (List Files.Path) := do
  Job.note (Render.pagesNotices ctx)
  let planned := (Render.pages ctx).map (Render.pagePath output)
  Job.print ("[dry-run] would write ".toList ++ pagesTo planned.length output)
  return planned

/-- The files of a conversion, written or, in a dry run, announced. -/
def produce (ctx : Render.Context) (isDryRun : Bool) (output : Files.Path) :
    Job ConversionError (List Files.Path) :=
  match ctx.singleDocument, isDryRun with
  | true, true => planDocument output
  | true, false => writeDocument ctx output
  | false, true => planPages ctx output
  | false, false => writePages ctx output

/-- Where the report goes, if it goes anywhere: where the request says, else where the configuration
says. -/
def reportPlace? (request : Request) (config : Value) : Except ConversionError (Option ReportPlace) :=
  match request.report.filter fun t => !t.isEmpty with
  | some t => .ok (some (.path (.ofText t)))
  | none =>
    let value := Configuration.reportPath config
    if value.isTrue then
      match value.wording? with
      | some wording => .ok (some (.ofWording wording))
      | none => .error (.notPath value)
    else .ok none

def writeReport (request : Request) (config : Value) (report : Report) :
    Job ConversionError Unit := do
  match ← Job.ofExcept (reportPlace? request config) with
  | none => return
  | some place =>
    if ← Job.withError .report (report.writeTo place) then
      Job.print ("Wrote report to ".toList ++ place.shown)

def run (readers : Readers) (request : Request) : Job ConversionError Report := do
  let plan ← prepare readers request
  match request.output with
  | none => throw .outputMissing
  | some output =>
    let files ← produce plan.context request.isDryRun output
    let report : Report := {
      source := request.source.text
      output := output.text
      options := plan.context.options
      configHash := plan.configHash
      singleDocument := plan.context.singleDocument
      isDryRun := request.isDryRun
      files := files.map Files.Path.text }
    writeReport request plan.config report
    return report

end Conversion
end ApiPages
