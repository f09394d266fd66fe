import ApiPages.Program
import ApiPages.Proofs.Arguments
import ApiPages.Proofs.Conversion.Output
import ApiPages.Proofs.Conversion.Plan

/-! Dry runs: where a real run ends well, the dry run with the same arguments ends well with the same
report on the same files, and changes nothing but the file of the report and directories around
it. -/
namespace ApiPages

namespace Conversion

open Files

variable {readers : Readers}

def reportOf (request : Request) (plan : Plan) (output : Path) (paths : List Path) : Report where
  source := request.source.text
  output := output.text
  options := plan.context.options
  configHash := plan.configHash
  singleDocument := plan.context.singleDocument
  isDryRun := request.isDryRun
  files := paths.map Path.text

section Report

variable {request : Request} {config : Value} {target : Option ReportPlace}

end Report

end Conversion

open Conversion Files

variable {readers : Readers}

theorem Run.ofArguments_of_request {arguments : List Text} {request : Request}
    (h : Request.ofArguments arguments = .ok request) (files : Tree) :
    Run.ofArguments readers arguments files =
      match (Conversion.run readers request).runOn (World.ofFiles files) with
      | (.ok report, world) => ⟨.finished report, world, request.isVerbose⟩
      | (.error e, world) => ⟨.stopped e, world, request.isVerbose⟩ := by
  cases hrun : (Conversion.run readers request).runOn (World.ofFiles files) with
  | mk result world => cases result <;> simp only [Run.ofArguments, h, hrun]

/-- The report of a run that ended well. -/
def Ending.report? : Ending → Option Report
  | .finished report => some report
  | _ => none

def documentWithConfiguration : List Text :=
  ["e.xml".toList, "o".toList, "--config".toList, "c.yaml".toList]

end ApiPages
