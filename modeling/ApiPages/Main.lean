import ApiPages.Program

/-! The program over real files. A run is computed over the files that it may touch, and then what
it changed is written. -/
namespace ApiPages.Main

/-- What stands at a path of the file system; what cannot be read as a file is a directory. -/
def nodeAt? (path : Files.Path) : IO (Option Files.Node) := do
  try
    let content ← IO.FS.readBinFile (String.ofList path.text)
    return some (.file content.toList)
  catch
    | .noFileOrDirectory .. => return none
    | _ => return some .directory

/-- A tree with what stands at a path and on the way there, from its beginning on. -/
def lookUp (root : Text) (tree : Files.Tree) : List Text → List Text → IO Files.Tree
  | _, [] => return tree
  | outer, segment :: rest => do
    let path : Files.Path := ⟨root, outer ++ [segment]⟩
    match tree.resolve path, ← nodeAt? path with
    | .ok place, some node =>
      let tree := if (tree.node? place).isSome then tree else tree.put place node
      match node with
      | .directory => lookUp root tree (outer ++ [segment]) rest
      | .file _ => return tree
    | _, _ => return tree

/-- A tree with what stands at paths of the file system. -/
def snapshot (paths : List Files.Path) : IO Files.Tree :=
  paths.foldlM (fun tree path => lookUp path.root tree [] path.segments) ⟨[]⟩

def pathsOf (arguments : List Text) : List Files.Path :=
  match Request.ofArguments arguments with
  | .ok request => request.paths
  | .error _ => []

def writeChanges (given now : Files.Tree) : IO Unit :=
  for (place, node) in now.nodes do
    let path := String.ofList (Files.Tree.pathOf place).text
    if given.nodes.lookup place ≠ some node then
      match node with
      | .directory => IO.FS.createDirAll path
      | .file content => IO.FS.writeBinFile path ⟨content.toArray⟩

/-- The end of a run, told to the user, and its exit code. -/
def conclude (run : Run) : IO UInt32 := do
  match run.ending with
  | .finished _ => return 0
  | .helpWanted =>
    IO.println (String.ofList help)
    return 0
  | .refused error =>
    IO.eprintln (String.ofList (refusal error))
    return 2
  | .stopped error =>
    IO.eprintln (String.ofList error.message)
    return 1

/-- A run over the files that a first run over the named ones would touch. -/
def run (arguments : List Text) : IO UInt32 := do
  let named := pathsOf arguments
  let draft := Run.ofArguments .standard arguments (← snapshot named)
  let touched := draft.world.files.nodes.map fun entry => Files.Tree.pathOf entry.1
  let given ← snapshot (named ++ touched)
  let run := Run.ofArguments .standard arguments given
  writeChanges given run.world.files
  IO.print (String.ofList run.printed)
  IO.eprint (String.ofList run.shownLog)
  conclude run

end ApiPages.Main

def main (arguments : List String) : IO UInt32 :=
  ApiPages.Main.run (arguments.map String.toList)
