import ApiPages.Conversion
import ApiPages.Proofs.Files.Alike
import ApiPages.Proofs.Job

/-! The same step on two worlds whose files differ only in what some of them hold: a step that reads
none of these ends alike on both. -/
namespace ApiPages

open Files

variable {differ : List Text → List UInt8 → List UInt8 → Prop}

/-- Files that are alike, the same log, and the same lines printed. -/
structure World.Alike (differ : List Text → List UInt8 → List UInt8 → Prop) (world world' : World) :
    Prop where
  files : Tree.Alike differ world.files world'.files
  log : world'.log = world.log
  printed : world'.printed = world.printed

namespace Job

variable {ε ε' α β : Type}

/-- Two steps end with the same result on worlds that are alike, and leave worlds that are alike. -/
def Lockstep (differ : List Text → List UInt8 → List UInt8 → Prop) (job job' : Job ε α) : Prop :=
  ∀ ⦃world world' : World⦄, World.Alike differ world world' →
    (job'.runOn world').1 = (job.runOn world).1 ∧
      World.Alike differ (job.runOn world).2 (job'.runOn world').2

namespace Lockstep

theorem bind {job job' : Job ε α} {next next' : α → Job ε β} (hjob : Lockstep differ job job')
    (hnext : ∀ a, Lockstep differ (next a) (next' a)) :
    Lockstep differ (job >>= next) (job' >>= next') := by
  intro world world' h
  obtain ⟨hresult, hworlds⟩ := hjob h
  rw [runOn_bind, runOn_bind]
  cases hrun : job.runOn world with
  | mk result between =>
    cases hrun' : job'.runOn world' with
    | mk result' between' =>
      rw [hrun, hrun'] at hresult hworlds
      obtain rfl : result' = result := hresult
      cases result' with
      | ok a => exact hnext a hworlds
      | error e => exact ⟨rfl, hworlds⟩

theorem pure (a : α) : Lockstep differ (pure a : Job ε α) (pure a) := fun _ _ h => ⟨rfl, h⟩

theorem throw (e : ε) : Lockstep differ (throw e : Job ε α) (throw e) := fun _ _ h => ⟨rfl, h⟩

theorem ofExcept_bind {result : Except ε α} {next next' : α → Job ε β}
    (hnext : ∀ a, result = .ok a → Lockstep differ (next a) (next' a)) :
    Lockstep differ (ofExcept result >>= next) (ofExcept result >>= next') := by
  intro world world' h
  rw [runOn_bind, runOn_bind, runOn_ofExcept, runOn_ofExcept]
  cases result with
  | ok a => exact hnext a rfl h
  | error e => exact ⟨rfl, h⟩

theorem note (notices : List Notice) :
    Lockstep differ (note notices : Job ε Unit) (note notices) := by
  intro world world' h
  exact ⟨rfl, h.files, congrArg (· ++ notices) h.log, h.printed⟩

theorem print (line : Text) : Lockstep differ (print line : Job ε Unit) (print line) := by
  intro world world' h
  exact ⟨rfl, h.files, h.log, congrArg (· ++ [line]) h.printed⟩

theorem withError (f : ε → ε') {job job' : Job ε α} (h : Lockstep differ job job') :
    Lockstep differ (withError f job) (withError f job') := by
  intro world world' hworlds
  rw [runOn_withError, runOn_withError]
  exact ⟨congrArg (Except.mapError f) (h hworlds).1, (h hworlds).2⟩

theorem attempt {job job' : Job ε α} (h : Lockstep differ job job') :
    Lockstep differ (attempt job : Job ε' _) (attempt job') := by
  intro world world' hworlds
  rw [runOn_attempt, runOn_attempt]
  exact ⟨congrArg Except.ok (h hworlds).1, (h hworlds).2⟩

theorem mapM {f f' : α → Job ε β} (h : ∀ a, Lockstep differ (f a) (f' a)) (as : List α) :
    Lockstep differ (as.mapM f) (as.mapM f') := by
  induction as with
  | nil => exact Lockstep.pure []
  | cons a as ih =>
    rw [List.mapM_cons, List.mapM_cons]
    exact (h a).bind fun b => ih.bind fun bs => Lockstep.pure (b :: bs)

theorem makeDirectories (path : Path) :
    Lockstep differ (makeDirectories path) (makeDirectories path) := by
  intro world world' h
  obtain ⟨htrees, hresult⟩ := h.files.makeDirectories path
  rw [runOn_makeDirectories, runOn_makeDirectories]
  exact ⟨hresult, htrees, h.log, h.printed⟩

/-- Two texts are written in lockstep where their bytes may differ. -/
theorem writeFile (path : Path) {content content' : Text}
    (hcontent : content' = content ∨ differ path.place (encode content) (encode content')) :
    Lockstep differ (writeFile path content) (writeFile path content') := by
  intro world world' h
  have hwrite := h.files.write path (hcontent.imp_left (congrArg encode))
  rw [runOn_writeFile, runOn_writeFile]
  cases hw : world.files.write path (encode content) with
  | ok changed =>
    cases hw' : world'.files.write path (encode content') with
    | ok changed' =>
      rw [hw, hw'] at hwrite
      exact ⟨rfl, hwrite, h.log, h.printed⟩
    | error _ =>
      rw [hw, hw'] at hwrite
      exact hwrite.elim
  | error e =>
    cases hw' : world'.files.write path (encode content') with
    | ok _ =>
      rw [hw, hw'] at hwrite
      exact hwrite.elim
    | error e' =>
      rw [hw, hw'] at hwrite
      obtain rfl : e' = e := hwrite
      exact ⟨rfl, h⟩

end Lockstep
end Job

namespace Render

private theorem lockstep_writePages (ctx : Context) (directory : Path) :
    Job.Lockstep differ (writePages ctx directory) (writePages ctx directory) := by
  have hpage (page : Page) :
      Job.Lockstep differ (writePage directory page) (writePage directory page) :=
    (Job.Lockstep.writeFile _ (Or.inl rfl)).bind fun _ =>
      (Job.Lockstep.note _).bind fun _ => Job.Lockstep.pure _
  exact (Job.Lockstep.makeDirectories directory).bind fun _ => (Job.Lockstep.note _).bind fun _ =>
    (Job.Lockstep.mapM hpage (pages ctx)).bind fun _ => (Job.Lockstep.note _).bind fun _ =>
      Job.Lockstep.pure _

private theorem lockstep_writeDocument (ctx : Context) (path : Path) :
    Job.Lockstep differ (writeDocument ctx path) (writeDocument ctx path) :=
  (Job.Lockstep.makeDirectories path.parent).bind fun _ => (Job.Lockstep.note _).bind fun _ =>
    (Job.Lockstep.writeFile path (Or.inl rfl)).bind fun _ => Job.Lockstep.note _

end Render

/-- Two reports are written in lockstep where their texts may differ. -/
theorem Report.lockstep_write {report report' : Report} {path : Path}
    (hdiffer : differ path.place (encode report.text) (encode report'.text)) :
    Job.Lockstep differ (report.write path) (report'.write path) := by
  refine Job.Lockstep.bind (Job.Lockstep.attempt ?_) fun result => ?_
  · exact (Job.Lockstep.makeDirectories path.parent).bind fun _ =>
      Job.Lockstep.writeFile path (Or.inr hdiffer)
  · cases result with
    | ok _ => exact Job.Lockstep.pure true
    | error e =>
      dsimp only
      split
      · exact (Job.Lockstep.throw e).bind fun _ =>
          (Job.Lockstep.note _).bind fun _ => Job.Lockstep.pure false
      · exact (Job.Lockstep.note _).bind fun _ => Job.Lockstep.pure false

/-- A place at which no file can be. -/
theorem Report.lockstep_writeLoose (p : LoosePath) :
    Job.Lockstep differ (writeLoose p) (writeLoose p) := by
  rw [writeLoose]
  cases p.directory? with
  | none => exact Job.Lockstep.throw _
  | some directory =>
    refine (Job.Lockstep.attempt (Job.Lockstep.makeDirectories directory)).bind fun result => ?_
    cases result with
    | ok _ => exact Job.Lockstep.throw _
    | error e =>
      dsimp only
      split
      · exact (Job.Lockstep.throw _).bind fun _ =>
          (Job.Lockstep.note _).bind fun _ => Job.Lockstep.pure false
      · exact (Job.Lockstep.note _).bind fun _ => Job.Lockstep.pure false

namespace Conversion

theorem lockstep_produce (ctx : Render.Context) (isDryRun : Bool) (output : Path) :
    Job.Lockstep differ (produce ctx isDryRun output) (produce ctx isDryRun output) := by
  rw [produce.eq_def]
  cases ctx.singleDocument with
  | true =>
    cases isDryRun with
    | true => exact (Job.Lockstep.print _).bind fun _ => Job.Lockstep.pure [output]
    | false =>
      exact ((Render.lockstep_writeDocument ctx output).withError ConversionError.file).bind fun _ =>
        (Job.Lockstep.print _).bind fun _ => Job.Lockstep.pure [output]
  | false =>
    cases isDryRun with
    | true =>
      exact (Job.Lockstep.note _).bind fun _ => (Job.Lockstep.print _).bind fun _ =>
        Job.Lockstep.pure _
    | false =>
      exact ((Render.lockstep_writePages ctx output).withError ConversionError.file).bind fun written =>
        (Job.Lockstep.print _).bind fun _ => Job.Lockstep.pure written

/-- Reports for one place are written in lockstep where their texts may differ there. -/
theorem lockstep_writeReport {request : Request} {config config' : Value} {report report' : Report}
    (htarget : reportPlace? request config' = reportPlace? request config)
    (hdiffer : ∀ path, reportPlace? request config = .ok (some (.path path)) →
      differ path.place (encode report.text) (encode report'.text)) :
    Job.Lockstep differ (writeReport request config report) (writeReport request config' report') := by
  rw [writeReport, writeReport, htarget]
  refine Job.Lockstep.ofExcept_bind fun target htarget => ?_
  cases target with
  | none => exact Job.Lockstep.pure ()
  | some place =>
    have hwrite : Job.Lockstep differ (report.writeTo place) (report'.writeTo place) := by
      cases place with
      | path p => exact (Report.lockstep_write (hdiffer p htarget)).withError _
      | loose p => exact Report.lockstep_writeLoose p
    refine (hwrite.withError ConversionError.report).bind ?_
    intro went
    cases went with
    | true => exact Job.Lockstep.print _
    | false => exact Job.Lockstep.pure ()

end Conversion
end ApiPages
