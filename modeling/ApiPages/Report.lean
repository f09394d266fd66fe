import ApiPages.Files.LoosePath
import ApiPages.Job
import ApiPages.Options
import ApiPages.Value.JsonText

/-! Reports on runs: from what a run worked, and which files it made. -/
namespace ApiPages

/-- A place that is named for a report. -/
inductive ReportPlace where
  | path (p : Files.Path)
  | loose (p : Files.LoosePath)

/-- Why a report cannot be written, where that is not only logged. -/
inductive ReportError where
  | file (error : Files.FileError)
  | unencodable (error : Files.EncodingError)

/-- The place that a text names. -/
def ReportPlace.ofWording : Wording → ReportPlace
  | .text t => .path (.ofText t)
  | .loose t => .loose (.ofLoose t)

def ReportPlace.shown : ReportPlace → Text
  | .path p => p.text
  | .loose p => p.shown

/-- What is reported of a run. -/
structure Report where
  source : Text
  output : Text
  options : Options
  configHash : Text
  singleDocument : Bool
  /-- Nothing was written; the files are those that a run would have written. -/
  isDryRun : Bool
  files : List Text

namespace Report

def addFiles (files : List Text) (report : Report) : Report :=
  { report with files := report.files ++ files }

/-- The report as a record. Its clock readings are always 0, so that equal runs have equal
reports. -/
def toValue (report : Report) : Value :=
  .record [
    ("meta".toList, .record [
      ("timestamp".toList, .int 0),
      ("duration".toList, .int 0),
      ("config_hash".toList, .text report.configHash),
      ("dry_run".toList, .bool report.isDryRun)]),
    ("xml".toList, .text report.source),
    ("single".toList, .bool report.singleDocument),
    ("output".toList, .text report.output),
    ("options".toList, report.options.toValue),
    ("files".toList, .list (report.files.map Value.text))]

def text (report : Report) : Text := (report.toValue.indentedJson? 0).getD []

/-- The report written into a file, with the directories around it; whether that went well. What the
file system refuses is only logged. -/
def write (report : Report) (path : Files.Path) : Job Files.FileError Bool := do
  let writing : Job Files.FileError Unit := do
    Job.makeDirectories path.parent
    Job.writeFile path report.text
  match ← Job.attempt writing with
  | .ok () => return true
  | .error e =>
    if e.cause = .zeroInPath then throw e
    Job.note [.reportFailed path.text e]
    return false

/-- Where no file can have the path, the directories around it are made, if they can have theirs. -/
def writeLoose (path : Files.LoosePath) : Job ReportError Bool := do
  match path.directory? with
  | none => throw (.unencodable path.error)
  | some directory =>
    match ← Job.attempt (Job.makeDirectories directory) with
    | .ok () => throw (.unencodable path.error)
    | .error e =>
      if e.cause = .zeroInPath then throw (.file e)
      Job.note [.reportFailed path.shown e]
      return false

def writeTo (report : Report) : ReportPlace → Job ReportError Bool
  | .path p => Job.withError .file (report.write p)
  | .loose p => writeLoose p

end Report
end ApiPages
