import ApiPages.Conversion
import ApiPages.Proofs.Job

/-! What a conversion works from: a plan changes no file, has the options and the mode of its
configuration, and is the same for a dry run. -/
namespace ApiPages

variable {readers : Readers}

namespace Conversion

/-- A plan for a configuration with options, once the export is known to be a file of the tree. -/
def planWith (readers : Readers) (request : Request) (tree : Files.Tree) (config : Value)
    (options : Options) : Job ConversionError Plan :=
  match Configuration.singleDocument? config with
  | none => throw .modeMissing
  | some singleDocument => do
    let root ← Job.ofExcept ((Catalog.documentOfFile readers tree request.source).mapError .load)
    Job.note (Catalog.loadingNotices root)
    match configHash? config with
    | none => throw .noDigest
    | some configHash =>
      return ⟨⟨.ofDocument root, options, singleDocument, .heuristic⟩, config, configHash⟩

theorem prepare_eq (request : Request) : prepare readers request = (do
    let tree ← Job.files
    let isFile ← Job.ofExcept ((tree.isFile request.source).mapError .file)
    if isFile then
      let loaded ← Job.withError .configuration (Configuration.load readers request.config)
      let options ← Job.ofExcept
        ((Configuration.options (request.configured loaded)).mapError .options)
      planWith readers request tree (request.configured loaded) options
    else throw (.sourceMissing request.source)) := by
  rw [prepare]
  refine bind_congr fun tree => bind_congr fun isFile => ?_
  cases isFile <;> rfl

end Conversion
end ApiPages
