import CodeQuality.Command.Run
import CodeQuality.Proofs.Analysis.Schedule
import CodeQuality.Proofs.Outcome.File
import Mathlib.Data.List.Perm.Basic

/-!
# Outcomes of schedules

Whatever the schedule, every file of a project is analysed, skipped or cancelled, and the outcome
lists the first two in the order of the files. A file that cannot be read leaves no other trace.
Without a cancellation all schedules have the outcome of the files one after the other, which is
what the analysis of a folder computes.
-/

namespace CodeQuality

/-- The outcome accounts for each of the files once: as analysed, as skipped or as cancelled. -/
structure ProjectOutcome.Covers (outcome : ProjectOutcome) (config : Config)
    (read : Path → Option String) (files cancelled : List Path) : Prop where
  each_once : (outcome.files.map FileOutcome.path ++ outcome.skipped ++ cancelled).Perm files
  files_sublist : (outcome.files.map FileOutcome.path).Sublist files
  files_nodup : (outcome.files.map FileOutcome.path).Nodup
  skipped_sublist : outcome.skipped.Sublist files
  skipped_nodup : outcome.skipped.Nodup
  /-- Every outcome is the one of the text at its path. -/
  files_eq : ∀ file ∈ outcome.files, ∃ text, read file.path = some text ∧
    file = (analyzeText config file.path text).outcome
  /-- What is skipped cannot be read. -/
  skipped_eq : ∀ path ∈ outcome.skipped, read path = none
  incomplete_iff : outcome.incomplete = true ↔ cancelled ≠ []

/-- The inventory of a text is the one of the file at its path. -/
theorem extract_path (options : ExtractionOptions) (path : Path) (text : String)
    (language : Language) : (extract options path text language).path = path := by
  rw [extract]
  split <;> rfl

/-- The outcome of a text is the one of the file at its path. -/
theorem analyzeText_path (config : Config) (path : Path) (text : String) :
    (analyzeText config path text).outcome.path = path := by
  rw [analyzeText]
  simp only [FileOutcome.setScore, FileOutcome.foldl_addMetric, FileOutcome.ofInventory]
  exact extract_path config.extraction path text (Language.ofPath path)

section Schedule

variable (config : Config) (read : Path → Option String) (events : List Event)

/-- The analysis of a file is the one of its text, if it is taken up in time and can be read. -/
theorem analysis?_resultOf (path : Path) :
    (resultOf config read events path).analysis? =
      if Event.isLate path events then none else (read path).map (analyzeText config path) := by
  cases hlate : Event.isLate path events with
  | true => simp [resultOf, analyzeOne, FileResult.analysis?, hlate]
  | false =>
    cases hread : read path <;>
      simp [resultOf, analyzeOne, FileResult.analysis?, hlate, hread]

/-- A file is skipped if it is taken up in time and cannot be read. -/
theorem failed?_resultOf (path : Path) :
    (resultOf config read events path).failed? =
      Option.guard (fun path => !(read path).isSome && !Event.isLate path events) path := by
  cases hlate : Event.isLate path events with
  | true => simp [resultOf, analyzeOne, FileResult.failed?, Option.guard, hlate]
  | false =>
    cases hread : read path <;>
      simp [resultOf, analyzeOne, FileResult.failed?, Option.guard, hlate, hread]

/-- A file is cancelled if and only if it is taken up late. -/
theorem isCancelled_resultOf (path : Path) :
    (resultOf config read events path).isCancelled = Event.isLate path events := by
  cases hlate : Event.isLate path events with
  | true => simp [resultOf, analyzeOne, FileResult.isCancelled, hlate]
  | false =>
    cases hread : read path <;>
      simp [resultOf, analyzeOne, FileResult.isCancelled, hlate, hread]

/-- The paths of the analysed files, in the order of the files. -/
theorem analyzed_resultOf (files : List Path) :
    ((files.map (resultOf config read events)).filterMap FileResult.analysis?).map
        (fun analysis => analysis.outcome.path) =
      files.filter fun path => (read path).isSome && !Event.isLate path events := by
  rw [List.filterMap_map, List.map_filterMap, ← List.filterMap_eq_filter]
  apply List.filterMap_congr
  intro path _
  rw [Function.comp_apply, analysis?_resultOf]
  cases hlate : Event.isLate path events with
  | true => simp [Option.guard, hlate]
  | false => cases hread : read path <;> simp [Option.guard, hlate, hread, analyzeText_path]

/-- The paths of the skipped files, in the order of the files. -/
theorem skipped_resultOf (files : List Path) :
    (files.map (resultOf config read events)).filterMap FileResult.failed? =
      files.filter fun path => !(read path).isSome && !Event.isLate path events := by
  rw [List.filterMap_map, ← List.filterMap_eq_filter]
  exact List.filterMap_congr fun path _ => failed?_resultOf config read events path

/-- The results of a schedule account for each of its files once. -/
theorem covers_resultOf {files : List Path} (hfiles : files.Nodup) (seconds : Float) :
    (ProjectOutcome.ofResults (files.map (resultOf config read events)) seconds).Covers config read
      files (files.filter fun path => Event.isLate path events) := by
  have hanalyzed : (ProjectOutcome.ofResults (files.map (resultOf config read events))
      seconds).files.map FileOutcome.path =
      files.filter fun path => (read path).isSome && !Event.isLate path events := by
    rw [← analyzed_resultOf config]
    exact List.map_map
  have hskipped : (ProjectOutcome.ofResults (files.map (resultOf config read events))
      seconds).skipped =
      files.filter fun path => !(read path).isSome && !Event.isLate path events :=
    skipped_resultOf config read events files
  constructor
  case each_once =>
    -- The files in time are those that can be read and those that cannot.
    have htimely := List.filter_append_perm (fun path => (read path).isSome)
      (files.filter fun path => !Event.isLate path events)
    have hall := List.filter_append_perm (fun path => Event.isLate path events) files
    rw [List.filter_filter, List.filter_filter] at htimely
    rw [hanalyzed, hskipped]
    exact (htimely.append_right _).trans (List.perm_append_comm.trans hall)
  case files_sublist =>
    rw [hanalyzed]
    exact List.filter_sublist
  case files_nodup =>
    rw [hanalyzed]
    exact hfiles.filter _
  case skipped_sublist =>
    rw [hskipped]
    exact List.filter_sublist
  case skipped_nodup =>
    rw [hskipped]
    exact hfiles.filter _
  case files_eq =>
    intro file hfile
    obtain ⟨analysis, hanalysis, rfl⟩ := List.mem_map.mp hfile
    obtain ⟨result, hresult, hanalysis⟩ := List.mem_filterMap.mp hanalysis
    obtain ⟨path, -, rfl⟩ := List.mem_map.mp hresult
    rw [analysis?_resultOf] at hanalysis
    split at hanalysis
    · simp at hanalysis
    · obtain ⟨text, htext, rfl⟩ := Option.map_eq_some_iff.mp hanalysis
      rw [analyzeText_path]
      exact ⟨text, htext, rfl⟩
  case skipped_eq =>
    intro path hpath
    rw [hskipped] at hpath
    have hread := (List.mem_filter.mp hpath).2
    simpa using (Bool.and_eq_true_iff.mp hread).1
  case incomplete_iff =>
    simp [ProjectOutcome.ofResults, isCancelled_resultOf, List.filter_eq_nil_iff]

/-- The results without those of a file that cannot be read have the same outcome, except that the
file is not skipped. -/
theorem ofResults_filter_ne {path : Path} (hlate : Event.isLate path events = false)
    (hread : read path = none) (files : List Path) (seconds : Float) :
    ProjectOutcome.ofResults ((files.filter (· ≠ path)).map (resultOf config read events)) seconds =
      { ProjectOutcome.ofResults (files.map (resultOf config read events)) seconds with
        skipped := (ProjectOutcome.ofResults (files.map (resultOf config read events))
          seconds).skipped.filter (· ≠ path) } := by
  have hanalyses : ((files.filter (· ≠ path)).map (resultOf config read events)).filterMap
      FileResult.analysis? =
      (files.map (resultOf config read events)).filterMap FileResult.analysis? := by
    rw [List.filterMap_map, List.filterMap_map, List.filterMap_filter]
    apply List.filterMap_congr
    intro other _
    by_cases hother : other = path
    · simp [hother, analysis?_resultOf, hread]
    · simp [hother]
  have hskipped : ((files.filter (· ≠ path)).map (resultOf config read events)).filterMap
      FileResult.failed? =
      ((files.map (resultOf config read events)).filterMap FileResult.failed?).filter
        (· ≠ path) := by
    rw [skipped_resultOf, skipped_resultOf, List.filter_filter, List.filter_filter]
    exact List.filter_congr fun other _ => Bool.and_comm _ _
  have hincomplete : ((files.filter (· ≠ path)).map (resultOf config read events)).any
      FileResult.isCancelled =
      (files.map (resultOf config read events)).any FileResult.isCancelled := by
    rw [List.any_map, List.any_map, List.any_filter]
    congr 1
    funext other
    by_cases hother : other = path
    · simp [hother, isCancelled_resultOf, hlate]
    · simp [hother]
  simp only [ProjectOutcome.ofResults, hanalyses, hskipped, hincomplete]

end Schedule

namespace IsSchedule

variable {files : List Path} {events : List Event}

/-- A file that was taken up in time and cannot be read adds nothing but its path to the outcome. -/
theorem outcome?_filter_ne (h : IsSchedule files events) (config : Config)
    {read : Path → Option String} {path : Path} (hlate : Event.isLate path events = false)
    (hread : read path = none) (seconds : Float) :
    outcome? config (files.filter (· ≠ path)) read
        (events.filter fun event => !event.isAbout path) seconds =
      some { ProjectOutcome.ofResults (files.map (resultOf config read events)) seconds with
        skipped := (ProjectOutcome.ofResults (files.map (resultOf config read events))
          seconds).skipped.filter (· ≠ path) } := by
  have hresults : (files.filter (· ≠ path)).map
      (resultOf config read (events.filter fun event => !event.isAbout path)) =
      (files.filter (· ≠ path)).map (resultOf config read events) := by
    apply List.map_congr_left
    intro other hother
    have hne : other ≠ path := by simpa using (List.mem_filter.mp hother).2
    rw [resultOf, resultOf, Event.isLate_filter hne]
  rw [(h.filter_ne path).outcome?_eq, hresults, ofResults_filter_ne config read events hlate hread]

/-- Without a cancellation the outcome is the one of analysing every file. -/
theorem outcome?_of_cancel_notMem (h : IsSchedule files events) (hcancel : .cancel ∉ events)
    (config : Config) (read : Path → Option String) (seconds : Float) :
    outcome? config files read events seconds =
      some (.ofResults (files.map fun path => analyzeOne config false path (read path))
        seconds) := by
  have hresults : resultOf config read events =
      fun path => analyzeOne config false path (read path) := by
    funext path
    rw [resultOf, Event.isLate_of_cancel_notMem hcancel]
  rw [h.outcome?_eq, hresults]

end IsSchedule

/-- The text at a path, if it can be read. -/
def Desk.text? (desk : Desk) (path : Path) : Option String :=
  ((Host.readText path : StateM Desk _).run desk).1.toOption

namespace Desk

variable {desk next : Desk} {ε α β : Type}

/-- A part that cannot fail succeeds. -/
theorem run_lift (part : StateM Desk α) :
    (liftM part : ExceptT ε (StateM Desk) α).run.run desk =
      (.ok (part.run desk).1, (part.run desk).2) :=
  rfl

/-- What follows a part that succeeds goes on from where it ends. -/
theorem run_bind_ok {part : ExceptT ε (StateM Desk) α} {a : α}
    (h : part.run.run desk = (.ok a, next)) (rest : α → ExceptT ε (StateM Desk) β) :
    (part >>= rest).run.run desk = (rest a).run.run next := by
  rw [ExceptT.run_bind, StateT.run_bind, h]
  rfl

/-- Reading a text leaves the desk as it is. -/
theorem run_readText (desk : Desk) (path : Path) :
    ((Host.readText path : StateM Desk _).run desk).2 = desk := by
  have hread : (Host.read path : StateM Desk _).run desk = pure (desk.disk.read path, desk) := rfl
  rw [Host.readText, StateT.run_bind, hread, pure_bind]
  dsimp only
  split
  · rfl
  · split <;> rfl

/-- What becomes of a file depends on the text at its path and leaves the desk as it is. -/
theorem run_analyzeAt (desk : Desk) (config : Config) (isCancelled : Bool) (path : Path) :
    (analyzeAt config isCancelled path : StateM Desk _).run desk =
      (analyzeOne config isCancelled path (desk.text? path), desk) := by
  cases isCancelled with
  | true => rfl
  | false =>
    have htext : (Host.readText path : StateM Desk _).run desk =
        pure (((Host.readText path : StateM Desk _).run desk).1, desk) :=
      Prod.ext rfl (run_readText desk path)
    rw [analyzeAt, if_neg Bool.false_ne_true, StateT.run_bind, htext, pure_bind]
    rfl

/-- What becomes of files one after the other. -/
theorem run_mapM_analyzeAt (desk : Desk) (config : Config) (isCancelled : Bool)
    (files : List Path) :
    (files.mapM fun path => (liftM (analyzeAt config isCancelled path : StateM Desk _) :
      ExceptT ε (StateM Desk) _)).run.run desk =
      (.ok (files.map fun path => analyzeOne config isCancelled path (desk.text? path)), desk) := by
  induction files with
  | nil => rfl
  | cons path rest ih =>
    have hfirst : (liftM (analyzeAt config isCancelled path : StateM Desk _) :
        ExceptT ε (StateM Desk) _).run.run desk =
        (.ok (analyzeOne config isCancelled path (desk.text? path)), desk) := by
      rw [run_lift, run_analyzeAt]
    rw [List.mapM_cons, run_bind_ok hfirst, run_bind_ok ih]
    rfl

/-- The analysis of a folder is the schedule of its files one after the other, with the
cancellation before the first one or never. No time passes on a desk. -/
theorem run_analyzeFolder (config : Config) (isCancelled : Bool) {root : Path} {files : List Path}
    (hfiles : files.Nodup)
    (h : (filesToAnalyze config root : ExceptT AnalysisError (StateM Desk) _).run.run desk =
      (.ok files, desk)) :
    ∃ outcome, outcome? config files desk.text?
        (if isCancelled then .cancel :: Event.sequential files else Event.sequential files)
        (secondsOf 0) = some outcome ∧
      (analyzeFolder config isCancelled root : ExceptT AnalysisError (StateM Desk) _).run.run desk =
        (.ok outcome, desk) := by
  have hclock : (liftM (Host.clock : StateM Desk _) :
      ExceptT AnalysisError (StateM Desk) _).run.run desk = (.ok 0, desk) := rfl
  have hrun : (analyzeFolder config isCancelled root :
      ExceptT AnalysisError (StateM Desk) _).run.run desk =
      (.ok (.ofResults (files.map fun path => analyzeOne config isCancelled path (desk.text? path))
        (secondsOf 0)), desk) := by
    rw [analyzeFolder, run_bind_ok hclock, run_bind_ok h,
      run_bind_ok (run_mapM_analyzeAt desk config isCancelled files)]
    rfl
  have hschedule := IsSchedule.sequential hfiles
  refine ⟨_, ?_, hrun⟩
  cases isCancelled with
  | true =>
    have hcancelled : IsSchedule files (.cancel :: Event.sequential files) :=
      hschedule.of_filter_ne_cancel (by simp)
    exact hcancelled.outcome?_eq config desk.text? (secondsOf 0)
  | false =>
    exact hschedule.outcome?_of_cancel_notMem (Event.cancel_notMem_sequential files) config
      desk.text? (secondsOf 0)

end Desk

/-- All runs that a configuration admits are schedules. Every schedule has an outcome that accounts
for each file once and to which a file that cannot be read adds nothing but its path. Without a
cancellation, all schedules have the outcome that the analysis of the folder computes, so that the
outcome is the same for all runs that are admitted with any number of workers on any machine. -/
theorem outcome_of_schedule (config : Config) {files : List Path} (hfiles : files.Nodup)
    (read : Path → Option String) {events : List Event} (hevents : IsSchedule files events)
    (seconds : Float) :
    (∀ machine other, config.Admits machine files other → IsSchedule files other) ∧
    ∃ outcome, outcome? config files read events seconds = some outcome ∧
      outcome.Covers config read files (files.filter fun path => Event.isLate path events) ∧
      (∀ path ∈ outcome.skipped,
        outcome? config (files.filter (· ≠ path)) read
            (events.filter fun event => !event.isAbout path) seconds =
          some { outcome with skipped := outcome.skipped.filter (· ≠ path) }) ∧
      (.cancel ∉ events → ∀ (parallel : Bool) (jobs : Nat),
        (∀ other, IsSchedule files other → .cancel ∉ other → ∀ otherSeconds,
          outcome? { config with parallel := parallel, jobs := jobs } files read other
            otherSeconds = some { outcome with seconds := otherSeconds }) ∧
        (∀ otherSeconds,
          outcome? { config with parallel := parallel, jobs := jobs } files read
            (Event.sequential files) otherSeconds =
              some { outcome with seconds := otherSeconds }) ∧
        (∀ machine,
          { config with parallel := parallel, jobs := jobs }.Admits machine files
            (Event.sequential files) ∧
          ∀ other, { config with parallel := parallel, jobs := jobs }.Admits machine files other →
            .cancel ∉ other → ∀ otherSeconds,
            outcome? { config with parallel := parallel, jobs := jobs } files read other
              otherSeconds = some { outcome with seconds := otherSeconds }) ∧
        ∀ (desk : Desk) (root : Path), (∀ path ∈ files, desk.text? path = read path) →
          (filesToAnalyze config root : ExceptT AnalysisError (StateM Desk) _).run.run desk =
            (.ok files, desk) →
          (analyzeFolder { config with parallel := parallel, jobs := jobs } false root :
              ExceptT AnalysisError (StateM Desk) _).run.run desk =
            (.ok { outcome with seconds := secondsOf 0 }, desk)) := by
  have hcovers := covers_resultOf config read events hfiles seconds
  refine ⟨fun _ _ hadmits => hadmits.isSchedule hfiles, _,
    hevents.outcome?_eq config read seconds, hcovers, ?_, ?_⟩
  · intro path hpath
    have hread := hcovers.skipped_eq path hpath
    have hfailed : path ∈ (files.map (resultOf config read events)).filterMap FileResult.failed? :=
      hpath
    rw [skipped_resultOf] at hfailed
    have hlate : Event.isLate path events = false := by simp_all
    exact hevents.outcome?_filter_ne config hlate hread seconds
  · intro hcancel parallel jobs
    have hresults : files.map (resultOf config read events) =
        files.map fun path => analyzeOne config false path (read path) := by
      apply List.map_congr_left
      intro path _
      rw [resultOf, Event.isLate_of_cancel_notMem hcancel]
    have hother : ∀ other, IsSchedule files other → .cancel ∉ other → ∀ otherSeconds,
        outcome? { config with parallel := parallel, jobs := jobs } files read other otherSeconds =
          some { ProjectOutcome.ofResults (files.map (resultOf config read events)) seconds with
            seconds := otherSeconds } := by
      intro other hschedule hnone otherSeconds
      rw [hschedule.outcome?_of_cancel_notMem hnone, hresults]
      rfl
    refine ⟨hother, hother _ (IsSchedule.sequential hfiles) (Event.cancel_notMem_sequential files),
      fun machine => ⟨Config.Admits.sequential _ machine hfiles, fun other hadmits =>
        hother other (hadmits.isSchedule hfiles)⟩, ?_⟩
    intro desk root hdesk hroot
    obtain ⟨outcome, houtcome, hrun⟩ := Desk.run_analyzeFolder
      { config with parallel := parallel, jobs := jobs } false hfiles hroot
    have hreads : (files.map fun path => analyzeOne config false path (desk.text? path)) =
        files.map fun path => analyzeOne config false path (read path) :=
      List.map_congr_left fun path hpath => by rw [hdesk path hpath]
    rw [if_neg Bool.false_ne_true, (IsSchedule.sequential hfiles).outcome?_of_cancel_notMem
      (Event.cancel_notMem_sequential files), Option.some.injEq] at houtcome
    rw [hrun, ← houtcome, hresults, ← hreads]
    rfl

/-- Three files, of which the second cannot be read and the third is taken up too late, and two
files side by side without a cancellation, which two workers may take up so and one may not. -/
theorem outcome_of_schedule_interleaved :
    let read : Path → Option String := fun path => if path = "b.go" then none else some ""
    (∃ outcome, outcome? {} ["a.go", "b.go", "c.go"] read
        [.start "a.go", .start "b.go", .finish "b.go", .cancel, .finish "a.go", .start "c.go",
          .finish "c.go"] 0 = some outcome ∧
      outcome.files.map FileOutcome.path = ["a.go"] ∧ outcome.skipped = ["b.go"] ∧
      outcome.incomplete = true) ∧
    (outcome? {} ["a.go", "b.go"] read
        [.start "b.go", .start "a.go", .finish "b.go", .finish "a.go"] 0 =
      outcome? { parallel := false } ["a.go", "b.go"] read
        (Event.sequential ["a.go", "b.go"]) 0) ∧
    Config.Admits {} ⟨some 2, fun _ => true⟩ ["a.go", "b.go"]
        [.start "b.go", .start "a.go", .finish "b.go", .finish "a.go"] ∧
    ¬ Config.Admits { jobs := 1 } ⟨some 2, fun _ => true⟩ ["a.go", "b.go"]
        [.start "b.go", .start "a.go", .finish "b.go", .finish "a.go"] := by
  intro read
  have hlate : IsSchedule ["a.go", "b.go", "c.go"]
      [.start "a.go", .start "b.go", .finish "b.go", .cancel, .finish "a.go", .start "c.go",
        .finish "c.go"] := by decide
  have hfree : IsSchedule ["a.go", "b.go"]
      [.start "b.go", .start "a.go", .finish "b.go", .finish "a.go"] := by decide
  refine ⟨?_, ?_, by decide, by decide⟩
  · obtain ⟨-, outcome, houtcome, -⟩ := outcome_of_schedule {} (by decide) read hlate 0
    refine ⟨outcome, houtcome, ?_⟩
    obtain rfl := Option.some.inj houtcome
    decide +kernel
  · obtain ⟨-, outcome, houtcome, -, -, hsame⟩ := outcome_of_schedule {} (by decide) read hfree 0
    have hsequential := (hsame (by decide) false 0).2.1 0
    obtain rfl := Option.some.inj houtcome
    exact houtcome.trans hsequential.symm

end CodeQuality
