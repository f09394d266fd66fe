import ApiPages.Proofs.Conversion.DryRun
import ApiPages.Proofs.Conversion.SectionHeader
import ApiPages.Proofs.Lockstep

/-! Runs whose configuration file has the header of a section with nothing below it, beside runs
whose file does not have it. -/
namespace ApiPages

open Files

variable {readers : Readers}

def Report.withHash (hash : Text) (report : Report) : Report := { report with configHash := hash }

/-- The ending with another digest in the report, if there is one. -/
def Ending.withHash (hash : Text) : Ending → Ending
  | .finished report => .finished (report.withHash hash)
  | ending => ending

/-- The request names the file at the path as its configuration. -/
def Request.NamesConfiguration (request : Request) (path : Path) : Prop :=
  ∃ t, request.config = some t ∧ t ≠ [] ∧ path = .ofText t

/-- One tree holds a file of settings, and in the other one the header of a section was written into
it, with nothing below it. -/
structure HeaderWritten (readers : Readers) (part : Text) (path : Path)
    (content content' : List UInt8) (files files' : Tree) : Prop where
  read : files.read path = .ok content
  written : files.write path content' = .ok files'
  spelled : ∃ before after, Scalar.text part ∉ (before ++ after).map Prod.fst ∧
    Configuration.settings readers content = .ok (.mapping (before ++ after)) ∧
    Configuration.settings readers content' = .ok (.mapping (before ++ (.text part, .null) :: after))

/-- The bytes are those of the configuration file, without and with the header, or of two reports
that differ in nothing but the digest. -/
def HeaderOrHash (path : Path) (content content' : List UInt8) (place : List Text)
    (bytes bytes' : List UInt8) : Prop :=
  (place = path.place ∧ bytes = content ∧ bytes' = content') ∨
    ∃ (report : Report) (hash : Text),
      bytes = encode report.text ∧ bytes' = encode (report.withHash hash).text

/-- The runs end alike, with the same options and mode, the same log and the same printed lines, and
leave the same files but for the configuration file and the digest in the report. -/
structure SameButHash (path : Path) (content content' : List UInt8) (run run' : Run) : Prop where
  ending : ∃ hash, run'.ending = run.ending.withHash hash
  isVerbose : run'.isVerbose = run.isVerbose
  worlds : World.Alike (HeaderOrHash path content content') run.world run'.world

private theorem HeaderWritten.alike {part : Text} {path : Path} {content content' : List UInt8}
    {files files' : Tree} (h : HeaderWritten readers part path content content' files files') :
    files'.read path = .ok content' ∧
      World.Alike (HeaderOrHash path content content') (World.ofFiles files)
        (World.ofFiles files') := by
  have hput := h.written
  rw [Tree.write_of_read h.read] at hput
  obtain rfl := Except.ok.inj hput
  have halike := Tree.alike_put_of_read h.read content'
  exact ⟨Tree.read_put_of_read h.read content', halike.mono fun _ _ _ => Or.inl, rfl, rfl⟩

private theorem Configuration.load_of_read {world : World} {request : Request} {path : Path}
    {content : List UInt8} (hnames : request.NamesConfiguration path)
    (hread : world.files.read path = .ok content) :
    (load readers request.config).runOn world = (settings readers content >>= ofSettings, world) := by
  obtain ⟨t, hconfig, hne, rfl⟩ := hnames
  have hnamed : request.config.filter (fun t => !t.isEmpty) = some t := by
    cases t with
    | nil => exact absurd rfl hne
    | cons c cs => rw [hconfig]; rfl
  rw [load, hnamed]
  dsimp only
  rw [Job.runOn_bind_of_ok (Job.runOn_files world), Job.runOn_bind, Job.runOn_ofExcept,
    Tree.find?_of_read hread]
  dsimp only [Except.mapError]
  rw [Job.runOn_bind, Job.runOn_ofExcept, hread]
  exact Job.runOn_ofExcept _ _

namespace Conversion

open ApiPages.Configuration

/-- What a run does once it has a plan. -/
def finish (request : Request) (plan : Plan) : Job ConversionError Report :=
  match request.output with
  | none => throw .outputMissing
  | some output => do
    let paths ← produce plan.context request.isDryRun output
    writeReport request plan.config (reportOf request plan output paths)
    return reportOf request plan output paths

private theorem run_eq_finish (request : Request) :
    run readers request = prepare readers request >>= finish request := rfl

/-- A run whose configuration file spells some entries. -/
theorem runOn_run {request : Request} {world : World} {path : Path} {content : List UInt8}
    {entries : Entries} (hnames : request.NamesConfiguration path)
    (hread : world.files.read path = .ok content)
    (hsettings : settings readers content = .ok (.mapping entries)) :
    (run readers request).runOn world =
      match world.files.isFile request.source with
      | .error e => (.error (.file e), world)
      | .ok false => (.error (.sourceMissing request.source), world)
      | .ok true =>
        match options (.mapping (effective request entries)) with
        | .error e => (.error (.options e), world)
        | .ok options =>
          (planWith readers request world.files (.mapping (effective request entries)) options >>=
            finish request).runOn world := by
  have hload : (Job.withError ConversionError.configuration (load readers request.config)).runOn world =
      ((ofSettings (.mapping entries)).mapError ConversionError.configuration, world) := by
    rw [Job.runOn_withError, load_of_read hnames hread, hsettings]
    rfl
  have hconfigured := configured_ofSettings request entries
  rw [run_eq_finish, prepare_eq, bind_assoc, Job.runOn_bind_of_ok (Job.runOn_files world),
    bind_assoc, Job.runOn_bind, Job.runOn_ofExcept]
  cases world.files.isFile request.source with
  | error e => rfl
  | ok isFile =>
    cases isFile with
    | false => rfl
    | true =>
      dsimp only [Except.mapError]
      rw [if_pos rfl, bind_assoc, Job.runOn_bind, hload]
      cases hloaded : ofSettings (.mapping entries) with
      | error e => simp [hloaded, Except.map] at hconfigured
      | ok loaded =>
        rw [hloaded] at hconfigured
        have hconfig : request.configured loaded = .mapping (effective request entries) :=
          Except.ok.inj hconfigured
        dsimp only [Except.mapError]
        rw [hconfig, bind_assoc, Job.runOn_bind, Job.runOn_ofExcept]
        cases options (.mapping (effective request entries)) <;> rfl

section Lockstep

variable {request : Request} {path : Path} {content content' : List UInt8}

/-- From plans that differ in the configuration and its digest, runs write the same files, and
reports that differ in the digest. -/
theorem lockstep_finish {plan plan' : Plan} (hcontext : plan'.context = plan.context)
    (htarget : reportPlace? request plan'.config = reportPlace? request plan.config) :
    Job.Lockstep (HeaderOrHash path content content')
      (finish request plan >>= fun report => pure (report.withHash plan'.configHash))
      (finish request plan') := by
  have hreport (output : Path) (paths : List Path) :
      reportOf request plan' output paths =
        (reportOf request plan output paths).withHash plan'.configHash := by
    rw [reportOf, hcontext]
    rfl
  rw [finish, finish]
  cases request.output with
  | none => exact fun _ _ h => ⟨rfl, h⟩
  | some output =>
    simp only [bind_assoc, pure_bind, hcontext, hreport]
    refine (lockstep_produce plan.context request.isDryRun output).bind fun paths => ?_
    refine (lockstep_writeReport htarget fun target _ => ?_).bind fun _ => Job.Lockstep.pure _
    exact Or.inr ⟨_, _, rfl, rfl⟩

/-- With the same export and mode, and a digest for both configurations or none, plans are made in
lockstep, and differ in the configuration and its digest. -/
theorem lockstep_planWith {differ : List Text → List UInt8 → List UInt8 → Prop} {α : Type}
    {tree tree' : Tree} {config config' : Value}
    {options : Options} {next next' : Plan → Job ConversionError α}
    (hsource : tree'.read request.source = tree.read request.source)
    (hmode : singleDocument? config' = singleDocument? config)
    (hhash : (configHash? config').isSome = (configHash? config).isSome)
    (hnext : ∀ context hash hash', configHash? config' = some hash' →
      Job.Lockstep differ (next ⟨context, config, hash⟩) (next' ⟨context, config', hash'⟩)) :
    Job.Lockstep differ (planWith readers request tree config options >>= next)
      (planWith readers request tree' config' options >>= next') := by
  have hroot : Catalog.documentOfFile readers tree' request.source =
      Catalog.documentOfFile readers tree request.source := by
    rw [Catalog.documentOfFile, Catalog.documentOfFile, hsource]
  rw [planWith, planWith, hmode, hroot]
  cases singleDocument? config with
  | none => exact fun _ _ h => ⟨rfl, h⟩
  | some mode =>
    simp only [bind_assoc]
    refine Job.Lockstep.ofExcept_bind fun root _ => (Job.Lockstep.note _).bind fun _ => ?_
    cases hold : configHash? config with
    | none =>
      have hnew : configHash? config' = none := by
        rw [← Option.not_isSome_iff_eq_none, hhash, hold]
        decide
      rw [hnew]
      exact fun _ _ h => ⟨rfl, h⟩
    | some hash =>
      rw [hold] at hhash
      obtain ⟨hash', hnew⟩ := Option.isSome_iff_exists.mp hhash
      rw [hnew]
      simp only [pure_bind]
      exact hnext _ hash hash' hnew

end Lockstep

section Runs

variable {request : Request} {part : Text} {path : Path} {content content' : List UInt8}
  {files files' : Tree} (hpart : part ∈ [renderKey, outputKey])
  (hnames : request.NamesConfiguration path)
  (hwritten : HeaderWritten readers part path content content' files files')

include hpart hnames hwritten

/-- With or without the header, a run is stopped by the same error before anything is asked of the
settings, or it makes a plan with the same options. -/
theorem run_stops_or_plans :
    (∃ e, (run readers request).runOn (World.ofFiles files) = (.error e, World.ofFiles files) ∧
      (run readers request).runOn (World.ofFiles files') = (.error e, World.ofFiles files')) ∨
    ∃ before after options, .text part ∉ (before ++ after).map Prod.fst ∧
      (run readers request).runOn (World.ofFiles files) =
        (planWith readers request files (.mapping (effective request (before ++ after))) options >>=
          finish request).runOn (World.ofFiles files) ∧
      (run readers request).runOn (World.ofFiles files') =
        (planWith readers request files'
          (.mapping (effective request (before ++ (.text part, .null) :: after))) options >>=
            finish request).runOn (World.ofFiles files') := by
  obtain ⟨hread', halike⟩ := hwritten.alike
  obtain ⟨before, after, habsent, hsettings, hsettings'⟩ := hwritten.spelled
  have hread : (World.ofFiles files).files.read path = .ok content := hwritten.read
  rw [runOn_run hnames hread hsettings, runOn_run hnames hread' hsettings',
    halike.files.isFile request.source, options_header request hpart habsent]
  cases (World.ofFiles files).files.isFile request.source with
  | error e => exact Or.inl ⟨_, rfl, rfl⟩
  | ok isFile =>
    cases isFile with
    | false => exact Or.inl ⟨_, rfl, rfl⟩
    | true =>
      dsimp only
      cases options (.mapping (effective request (before ++ after))) with
      | error e => exact Or.inl ⟨_, rfl, rfl⟩
      | ok options => exact Or.inr ⟨before, after, options, habsent, rfl, rfl⟩

/-- A header of the output without a mode stops the run where the mode is asked for. -/
theorem run_header_without_mode (hmode : part = outputKey ∧ request.single = false) :
    ((run readers request).runOn (World.ofFiles files')).2 = World.ofFiles files' ∧
      (((run readers request).runOn (World.ofFiles files')).1 = .error .modeMissing ∨
        ∃ e, ((run readers request).runOn (World.ofFiles files')).1 = .error e ∧
          ((run readers request).runOn (World.ofFiles files)).1 = .error e) := by
  rcases run_stops_or_plans hpart hnames hwritten with
    ⟨e, hrun, hrun'⟩ | ⟨before, after, options, habsent, -, hrun'⟩
  · rw [hrun, hrun']
    exact ⟨rfl, Or.inr ⟨e, rfl, rfl⟩⟩
  · have hnone := singleDocument?_header request hpart habsent
    rw [if_pos hmode] at hnone
    rw [hrun', planWith, hnone]
    exact ⟨rfl, Or.inl rfl⟩

/-- Every other header changes nothing of a run but the digest in the report. -/
theorem run_header (hsource : files'.read request.source = files.read request.source)
    (hmode : ¬(part = outputKey ∧ request.single = false)) :
    ∃ hash, ((run readers request).runOn (World.ofFiles files')).1 =
        ((run readers request).runOn (World.ofFiles files)).1.map (Report.withHash hash) ∧
      World.Alike (HeaderOrHash path content content') ((run readers request).runOn (World.ofFiles files)).2
        ((run readers request).runOn (World.ofFiles files')).2 := by
  have halike := hwritten.alike.2
  rcases run_stops_or_plans hpart hnames hwritten with
    ⟨e, hrun, hrun'⟩ | ⟨before, after, options, habsent, hrun, hrun'⟩
  · rw [hrun, hrun']
    exact ⟨[], rfl, halike⟩
  · let config := Value.mapping (effective request (before ++ after))
    let config' := Value.mapping (effective request (before ++ (.text part, .null) :: after))
    let hash := (configHash? config').getD []
    have hsingle := singleDocument?_header request hpart habsent
    rw [if_neg hmode] at hsingle
    have hhash : (configHash? config').isSome = (configHash? config).isSome :=
      isSome_configHash?_header request hpart habsent
    have htarget : reportPlace? request config' = reportPlace? request config := by
      rw [reportPlace?, reportPlace?, reportPath_header request hpart habsent]
    have hlockstep : Job.Lockstep (HeaderOrHash path content content')
        (planWith readers request files config options >>= fun plan =>
          finish request plan >>= fun report => pure (report.withHash hash))
        (planWith readers request files' config' options >>= finish request) := by
      refine lockstep_planWith hsource hsingle hhash fun context old new hnew => ?_
      obtain rfl : hash = new := by
        rw [show hash = (configHash? config').getD [] from rfl, hnew]
        rfl
      exact lockstep_finish rfl htarget
    obtain ⟨hresult, hworlds⟩ := hlockstep halike
    rw [← bind_assoc, Job.runOn_bind_pure] at hresult hworlds
    rw [hrun, hrun']
    exact ⟨hash, hresult, hworlds⟩

end Runs

end Conversion
open Conversion ApiPages.Configuration

/-- The header is that of the output, and the arguments ask for no single document. -/
def LosesMode (part : Text) (arguments : List Text) : Prop :=
  part = outputKey ∧ ∃ request, Request.ofArguments arguments = .ok request ∧ request.single = false

/-- The header of a section with nothing below it changes nothing of a run but the digest in the
report; only that of the output, without a single document asked for, stops the run for want of a mode
where another error does not stop it before, and then nothing is written, logged or printed. -/
theorem Run.empty_section_loses_only_mode {arguments : List Text} {part : Text} {path : Path}
    {content content' : List UInt8} {files files' : Tree} (hpart : part ∈ [renderKey, outputKey])
    (hwritten : HeaderWritten readers part path content content' files files')
    (hrequest : ∀ request, Request.ofArguments arguments = .ok request →
      request.NamesConfiguration path ∧ files'.read request.source = files.read request.source) :
    (¬LosesMode part arguments → SameButHash path content content'
      (Run.ofArguments readers arguments files) (Run.ofArguments readers arguments files')) ∧
    (LosesMode part arguments →
      (Run.ofArguments readers arguments files').world = World.ofFiles files' ∧
        ((Run.ofArguments readers arguments files').ending = .stopped .modeMissing ∨
          (Run.ofArguments readers arguments files').ending = (Run.ofArguments readers arguments files).ending ∧
            (Run.ofArguments readers arguments files).ending.report? = none)) := by
  constructor
  · intro hmode
    cases harguments : Request.ofArguments arguments with
    | error e =>
      have halike := hwritten.alike.2
      cases e with
      | helpWanted =>
        simp only [Run.ofArguments, harguments]
        exact ⟨⟨[], rfl⟩, rfl, halike⟩
      | refused error =>
        simp only [Run.ofArguments, harguments]
        exact ⟨⟨[], rfl⟩, rfl, halike⟩
    | ok request =>
      obtain ⟨hnames, hsource⟩ := hrequest request harguments
      obtain ⟨hash, hresult, hworlds⟩ := run_header hpart hnames hwritten hsource
        fun h => hmode ⟨h.1, request, harguments, h.2⟩
      rw [Run.ofArguments_of_request harguments, Run.ofArguments_of_request harguments]
      cases hrun : (Conversion.run readers request).runOn (World.ofFiles files) with
      | mk result last =>
        cases hrun' : (Conversion.run readers request).runOn (World.ofFiles files') with
        | mk result' last' =>
          rw [hrun, hrun'] at hresult hworlds
          obtain rfl : result' = result.map (Report.withHash hash) := hresult
          cases result with
          | ok report => exact ⟨⟨hash, rfl⟩, rfl, hworlds⟩
          | error e => exact ⟨⟨hash, rfl⟩, rfl, hworlds⟩
  · rintro ⟨houtput, request, harguments, hsingle⟩
    obtain ⟨hnames, -⟩ := hrequest request harguments
    obtain ⟨hworld, hend⟩ := run_header_without_mode hpart hnames hwritten ⟨houtput, hsingle⟩
    rw [Run.ofArguments_of_request harguments, Run.ofArguments_of_request harguments]
    cases hrun : (Conversion.run readers request).runOn (World.ofFiles files) with
    | mk result last =>
      cases hrun' : (Conversion.run readers request).runOn (World.ofFiles files') with
      | mk result' last' =>
        rw [hrun, hrun'] at hend
        rw [hrun'] at hworld
        rcases hend with rfl | ⟨e, rfl, rfl⟩
        · exact ⟨hworld, Or.inl rfl⟩
        · exact ⟨hworld, Or.inr ⟨rfl, rfl⟩⟩

/-- An export without members, and a configuration file. -/
def treeWith (configuration : Text) : Tree := ⟨[
  (["e.xml".toList], .file (encode "<doc><members/></doc>".toList)),
  (["c.yaml".toList], .file (encode configuration))]⟩

def configurationPath : Path := ⟨[], ["c.yaml".toList]⟩

/-- The same with another configuration written into the file. -/
def rewritten (configuration configuration' : Text) : Tree :=
  (treeWith configuration).put configurationPath.place (.file (encode configuration'))

private theorem headerWritten_rewritten {part configuration configuration' : Text} (before after : Entries)
    (hread : ((treeWith configuration).read configurationPath).toOption = some (encode configuration))
    (habsent : Scalar.text part ∉ (before ++ after).map Prod.fst)
    (hsettings : (settings .standard (encode configuration)).toOption = some (.mapping (before ++ after)))
    (hsettings' : (settings .standard (encode configuration')).toOption =
      some (.mapping (before ++ (.text part, .null) :: after))) :
    HeaderWritten .standard part configurationPath (encode configuration) (encode configuration')
      (treeWith configuration) (rewritten configuration configuration') where
  read := Job.toOption_ok hread
  written := Tree.write_of_read (Job.toOption_ok hread) _
  spelled := ⟨before, after, habsent, Job.toOption_ok hsettings, Job.toOption_ok hsettings'⟩

/-- A configuration that asks for a report. -/
def reportConfiguration : Text := "output:\n  report_path: r\n".toList

/-- The same with the header of the options. -/
def headedConfiguration : Text := "render:\noutput:\n  report_path: r\n".toList

private theorem namesConfiguration_documentWithConfiguration {request : Request}
    (h : Request.ofArguments documentWithConfiguration = .ok request) :
    request.NamesConfiguration configurationPath ∧ request.source = ⟨[], ["e.xml".toList]⟩ ∧
      request.single = false := by
  obtain rfl := Except.ok.inj h
  exact ⟨⟨"c.yaml".toList, rfl, by decide, rfl⟩, rfl, rfl⟩

/-- The header of the options leaves a run as it is that writes an index and a report. -/
theorem Run.empty_section_loses_only_mode_of_render :
    renderKey ∈ [renderKey, outputKey] ∧
      HeaderWritten .standard renderKey configurationPath (encode reportConfiguration)
        (encode headedConfiguration) (treeWith reportConfiguration)
        (rewritten reportConfiguration headedConfiguration) ∧
      (∀ request, Request.ofArguments documentWithConfiguration = .ok request →
        request.NamesConfiguration configurationPath ∧
          (rewritten reportConfiguration headedConfiguration).read request.source =
            (treeWith reportConfiguration).read request.source) ∧
      (Run.ofArguments .standard documentWithConfiguration (treeWith reportConfiguration)).ending.report?.map
        Report.files = some ["o/index.md".toList] ∧
      SameButHash configurationPath (encode reportConfiguration) (encode headedConfiguration)
        (Run.ofArguments .standard documentWithConfiguration (treeWith reportConfiguration))
        (Run.ofArguments .standard documentWithConfiguration
          (rewritten reportConfiguration headedConfiguration)) := by
  have hwritten : HeaderWritten .standard renderKey configurationPath (encode reportConfiguration)
      (encode headedConfiguration) (treeWith reportConfiguration)
      (rewritten reportConfiguration headedConfiguration) := by
    refine headerWritten_rewritten [] [(.text outputKey, .record [(reportKey, .text ['r'])])]
      ?_ ?_ ?_ ?_ <;> decide +kernel
  have hrequest : ∀ request, Request.ofArguments documentWithConfiguration = .ok request →
      request.NamesConfiguration configurationPath ∧
        (rewritten reportConfiguration headedConfiguration).read request.source =
          (treeWith reportConfiguration).read request.source := by
    intro request h
    obtain ⟨hnames, hsource, -⟩ := namesConfiguration_documentWithConfiguration h
    refine ⟨hnames, Tree.read_put_of_ne hwritten.read _ ?_⟩
    rw [hsource]
    decide
  have hrun := Run.empty_section_loses_only_mode List.mem_cons_self hwritten hrequest
  have hmode : ¬LosesMode renderKey documentWithConfiguration := fun h => absurd h.1 (by decide)
  exact ⟨List.mem_cons_self, hwritten, hrequest, by decide +kernel, hrun.1 hmode⟩

/-- The ending says that nothing gave a mode. -/
def Ending.lacksMode : Ending → Bool
  | .stopped .modeMissing => true
  | _ => false

/-- The header of the output stops a run that ends well without it. -/
theorem Run.empty_output_stops :
    HeaderWritten .standard outputKey configurationPath (encode []) (encode "output:\n".toList) (treeWith [])
        (rewritten [] "output:\n".toList) ∧
      (∀ request, Request.ofArguments documentWithConfiguration = .ok request →
        request.NamesConfiguration configurationPath) ∧
      (Run.ofArguments .standard documentWithConfiguration (treeWith [])).ending.report?.isSome = true ∧
      (Run.ofArguments .standard documentWithConfiguration
        (rewritten [] "output:\n".toList)).ending.lacksMode = true := by
  refine ⟨headerWritten_rewritten [] [] ?_ ?_ ?_ ?_, ?_, ?_, ?_⟩
  case refine_5 => exact fun request h => (namesConfiguration_documentWithConfiguration h).1
  all_goals decide +kernel

end ApiPages
