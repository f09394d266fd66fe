import ApiPages.Job
import Mathlib.Order.Defs.Unbundled

/-! What a step does to the world that it runs on, and what of the files a step keeps. -/
namespace ApiPages.Job

variable {ε ε' α β : Type}

@[simp] theorem runOn_throw (e : ε) (world : World) :
    (throw e : Job ε α).runOn world = (.error e, world) := rfl

theorem runOn_bind (job : Job ε α) (next : α → Job ε β) (world : World) :
    (job >>= next).runOn world =
      match job.runOn world with
      | (.ok a, world) => (next a).runOn world
      | (.error e, world) => (.error e, world) := by
  have hrun : job.runOn world = job world := rfl
  rw [hrun]
  change ExceptT.bindCont next (job world).1 (job world).2 = _
  cases job world with
  | mk result world => cases result <;> rfl

theorem runOn_bind_pure (f : α → β) (job : Job ε α) (world : World) :
    (job >>= fun a => pure (f a)).runOn world = ((job.runOn world).1.map f, (job.runOn world).2) := by
  rw [runOn_bind]
  cases job.runOn world with
  | mk result world => cases result <;> rfl

@[simp] theorem runOn_files (world : World) :
    (files : Job ε Files.Tree).runOn world = (.ok world.files, world) := rfl

@[simp] theorem runOn_ofExcept (result : Except ε α) (world : World) :
    (ofExcept result).runOn world = (result, world) := by
  cases result <;> rfl

theorem runOn_withError (f : ε → ε') (job : Job ε α) (world : World) :
    (withError f job).runOn world = ((job.runOn world).1.mapError f, (job.runOn world).2) := by
  change withError f job world = ((job world).1.mapError f, (job world).2)
  unfold withError
  cases job world with
  | mk result world => cases result <;> rfl

theorem runOn_attempt (job : Job ε α) (world : World) :
    (attempt job : Job ε' (Except ε α)).runOn world =
      (.ok (job.runOn world).1, (job.runOn world).2) := rfl

theorem runOn_writeFile (path : Files.Path) (content : Text) (world : World) :
    (writeFile path content).runOn world =
      match world.files.write path (Files.encode content) with
      | .ok changed => (.ok (), { world with files := changed })
      | .error e => (.error e, world) := by
  rw [writeFile, runOn_bind, runOn_files]
  dsimp only
  rw [runOn_bind, runOn_ofExcept]
  cases world.files.write path (Files.encode content) <;> rfl

theorem runOn_makeDirectories (path : Files.Path) (world : World) :
    (makeDirectories path).runOn world =
      ((world.files.makeDirectories path).2,
        { world with files := (world.files.makeDirectories path).1 }) := by
  rw [makeDirectories, runOn_bind, runOn_files]
  dsimp only
  rw [runOn_bind]
  exact runOn_ofExcept _ _

theorem runOn_bind_of_ok {job : Job ε α} {world between : World} {a : α}
    (h : job.runOn world = (.ok a, between)) (next : α → Job ε β) :
    (job >>= next).runOn world = (next a).runOn between := by
  rw [runOn_bind, h]

theorem toOption_ok {result : Except ε α} {a : α} (h : result.toOption = some a) :
    result = .ok a := by
  cases result with
  | error e => simp [Except.toOption] at h
  | ok b => exact congrArg Except.ok (Option.some.inj h)

/-- Whatever the end of the step is, the files before and after it are in the relation. -/
def Relates (r : Files.Tree → Files.Tree → Prop) (job : Job ε α) : Prop :=
  ∀ world, r world.files (job.runOn world).2.files

namespace Relates

variable {r : Files.Tree → Files.Tree → Prop} [IsPreorder Files.Tree r]

omit [IsPreorder Files.Tree r] in
theorem of_runOn {job : Job ε α} {world last : World} {result : Except ε α} (h : Relates r job)
    (hrun : job.runOn world = (result, last)) : r world.files last.files := by
  have hfiles := h world
  rw [hrun] at hfiles
  exact hfiles

theorem bind {job : Job ε α} {next : α → Job ε β} (hjob : Relates r job)
    (hnext : ∀ a, Relates r (next a)) : Relates r (job >>= next) := by
  intro world
  rw [runOn_bind]
  cases h : job.runOn world with
  | mk result between =>
    have hfirst := hjob.of_runOn h
    cases result with
    | ok a => exact trans_of r hfirst (hnext a between)
    | error e => exact hfirst

theorem pure (a : α) : Relates r (pure a : Job ε α) := fun _ => refl_of r _

theorem throw (e : ε) : Relates r (throw e : Job ε α) := fun _ => refl_of r _

theorem note (notices : List Notice) : Relates r (note notices : Job ε Unit) :=
  fun _ => refl_of r _

theorem print (line : Text) : Relates r (print line : Job ε Unit) := fun _ => refl_of r _

theorem files : Relates r (files : Job ε Files.Tree) := fun _ => refl_of r _

theorem ofExcept (result : Except ε α) : Relates r (ofExcept result) := by
  intro world
  rw [runOn_ofExcept]
  exact refl_of r _

omit [IsPreorder Files.Tree r] in
theorem withError (f : ε → ε') {job : Job ε α} (h : Relates r job) :
    Relates r (withError f job) := by
  intro world
  rw [runOn_withError]
  exact h world

end Relates
end ApiPages.Job
