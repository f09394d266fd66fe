import ApiPages.Notice

/-! Steps of a run, as changes of what a run can see: the files, the log, and the printed lines.
What was changed before an error stays. -/
namespace ApiPages

/-- What a run sees and changes. -/
structure World where
  files : Files.Tree
  log : List Notice
  printed : List Text

/-- A world with these files, before anything was logged or printed. -/
def World.ofFiles (files : Files.Tree) : World := ⟨files, [], []⟩

/-- A step that changes the world, and ends with a result or an error. -/
abbrev Job (ε : Type) (α : Type) : Type := ExceptT ε (StateM World) α

namespace Job

variable {ε α : Type}

def runOn (job : Job ε α) (world : World) : Except ε α × World := (job.run).run world

def note (notices : List Notice) : Job ε Unit :=
  modify fun world => { world with log := world.log ++ notices }

def print (line : Text) : Job ε Unit :=
  modify fun world => { world with printed := world.printed ++ [line] }

def files : Job ε Files.Tree := do return (← get).files

def ofExcept (result : Except ε α) : Job ε α :=
  match result with
  | .ok a => pure a
  | .error e => throw e

def writeFile (path : Files.Path) (content : Text) : Job Files.FileError Unit := do
  let changed ← ofExcept ((← files).write path (Files.encode content))
  modify fun world => { world with files := changed }

/-- A directory made with those around it, where they are not there yet. -/
def makeDirectories (path : Files.Path) : Job Files.FileError Unit := do
  let (changed, result) := (← files).makeDirectories path
  modify fun world => { world with files := changed }
  ofExcept result

/-- The same step with its errors seen as those of a larger step. -/
def withError {ε' : Type} (f : ε → ε') (job : Job ε α) : Job ε' α := fun world =>
  match job world with
  | (.ok a, world) => (.ok a, world)
  | (.error e, world) => (.error (f e), world)

def attempt {ε' : Type} (job : Job ε α) : Job ε' (Except ε α) := fun world =>
  match job world with
  | (result, world) => (.ok result, world)

end Job
end ApiPages
