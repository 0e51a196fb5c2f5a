import CodeQuality.Analysis
import Mathlib.Data.List.Basic

/-!
# Schedules

Files are analysed by workers that take them up in any order and side by side, while the analysis
may be cancelled at any moment. A worker looks for the cancellation once, when it takes a file up.
A schedule is the order in which all of this happens. Every schedule runs to its end, and what
becomes of a file depends only on its text and on whether the cancellation comes before it is
taken up.

A configuration admits some of the schedules: those with no more files in hand than there are
workers, or only the files one after the other.
-/

namespace CodeQuality

/-- What happens while the files of a project are analysed. -/
inductive Event where
  /-- A worker takes the file up and looks whether the analysis has been cancelled. -/
  | start (path : Path)
  /-- The worker is done with the file. -/
  | finish (path : Path)
  /-- The analysis is cancelled, for good. -/
  | cancel
  deriving DecidableEq, Repr

namespace Event

/-- The file that an event is about. -/
def path? : Event → Option Path
  | start path => some path
  | finish path => some path
  | cancel => none

/-- The event is about the file. -/
def isAbout (path : Path) (event : Event) : Bool :=
  event.path? = some path

/-- The analysis is cancelled before the file is taken up. -/
def isLate (path : Path) : List Event → Bool
  | [] => false
  | start other :: rest => other ≠ path && isLate path rest
  | finish _ :: rest => isLate path rest
  | cancel :: _ => true

/-- The files one after the other. -/
def sequential (files : List Path) : List Event :=
  files.flatMap fun path => [start path, finish path]

/-- A file is only taken up by a worker that is free, when `busy` of them have one in hand. -/
def fitsWorkers (workers : Nat) : Nat → List Event → Bool
  | _, [] => true
  | busy, start _ :: rest => busy < workers && fitsWorkers workers (busy + 1) rest
  | busy, finish _ :: rest => fitsWorkers workers (busy - 1) rest
  | busy, cancel :: rest => fitsWorkers workers busy rest

end Event

/-- How far a worker has come with a file. -/
inductive Progress where
  | waiting
  | started (isCancelled : Bool)
  | finished (result : FileResult)

namespace Progress

/-- What is still to happen to a file. -/
def awaited (path : Path) : Option Progress → List Event
  | some waiting => [.start path, .finish path]
  | some (started _) => [.finish path]
  | some (finished _) => []
  | none => []

end Progress

/-- The files in the hands of the workers, and whether the analysis has been cancelled. -/
structure Pool where
  isCancelled : Bool
  progress : Path → Option Progress

namespace Pool

/-- All files are waiting. -/
def ofFiles (files : List Path) : Pool where
  isCancelled := false
  progress path := if path ∈ files then some .waiting else none

/-- The pool with the progress of one file set. -/
def set (pool : Pool) (path : Path) (progress : Progress) : Pool :=
  { pool with
    progress := fun other => if other = path then some progress else pool.progress other }

/-- The pool behind an event, if the event can happen. -/
def step? (config : Config) (read : Path → Option String) (pool : Pool) : Event → Option Pool
  | .start path =>
    match pool.progress path with
    | some .waiting => some (pool.set path (.started pool.isCancelled))
    | _ => none
  | .finish path =>
    match pool.progress path with
    | some (.started isCancelled) =>
      some (pool.set path (.finished (analyzeOne config isCancelled path (read path))))
    | _ => none
  | .cancel => some { pool with isCancelled := true }

/-- The pool behind the events, if they can happen in this order. -/
def after? (config : Config) (read : Path → Option String) : Pool → List Event → Option Pool
  | pool, [] => some pool
  | pool, event :: rest =>
    (pool.step? config read event).bind fun next => after? config read next rest

/-- What has become of a file, when it is finished. -/
def result? (pool : Pool) (path : Path) : Option FileResult :=
  match pool.progress path with
  | some (.finished result) => some result
  | _ => none

end Pool

/-- The outcome of the files when their analysis goes by the events, if the events can happen and
finish all files. The results are taken in the order of the files. -/
def outcome? (config : Config) (files : List Path) (read : Path → Option String)
    (events : List Event) (seconds : Float) : Option ProjectOutcome :=
  match (Pool.ofFiles files).after? config read events with
  | none => none
  | some pool => (files.mapM pool.result?).map fun results => .ofResults results seconds

/-- Every file is taken up and finished once, and nothing happens to other files. -/
structure IsSchedule (files : List Path) (events : List Event) : Prop where
  once : ∀ path ∈ files, events.filter (Event.isAbout path) = [.start path, .finish path]
  known : ∀ event ∈ events, ∀ path ∈ event.path?, path ∈ files

instance (files : List Path) (events : List Event) : Decidable (IsSchedule files events) :=
  decidable_of_iff
    ((∀ path ∈ files, events.filter (Event.isAbout path) = [.start path, .finish path]) ∧
      ∀ event ∈ events, ∀ path ∈ event.path?, path ∈ files)
    ⟨fun h => ⟨h.1, h.2⟩, fun h => ⟨h.once, h.known⟩⟩

/-- What an analysis finds out about the machine it runs on. -/
structure Machine where
  /-- The number of workers that run at once, if the machine tells it. -/
  available : Option Nat
  /-- A pool of so many workers can be made. -/
  hasPool : Nat → Bool

/-- The analysis may go by the events. It takes the files one after the other where there is no
pool for them, and else as the workers of the pool come to them. The cancellation may come at any
moment. -/
def Config.Admits (config : Config) (machine : Machine) (files : List Path)
    (events : List Event) : Prop :=
  if config.isSequential machine.available files.length ||
      !machine.hasPool (config.effectiveJobs machine.available) then
    events.filter (· ≠ .cancel) = Event.sequential files
  else
    IsSchedule files events ∧
      Event.fitsWorkers (config.effectiveJobs machine.available) 0 events = true

instance (config : Config) (machine : Machine) (files : List Path) (events : List Event) :
    Decidable (config.Admits machine files events) :=
  inferInstanceAs (Decidable (ite _ _ _))

namespace Event

@[simp] theorem isAbout_start (path other : Path) :
    isAbout path (start other) = decide (other = path) := by
  simp [isAbout, path?]

@[simp] theorem isAbout_finish (path other : Path) :
    isAbout path (finish other) = decide (other = path) := by
  simp [isAbout, path?]

/-- Without a cancellation no file is late. -/
theorem isLate_of_cancel_notMem {path : Path} {events : List Event} (h : cancel ∉ events) :
    isLate path events = false := by
  induction events with
  | nil => rfl
  | cons event rest ih =>
    rw [List.mem_cons, not_or] at h
    cases event with
    | start other => simp [isLate, ih h.2]
    | finish other => exact ih h.2
    | cancel => exact absurd rfl h.1

theorem sequential_cons (path : Path) (files : List Path) :
    sequential (path :: files) = start path :: finish path :: sequential files :=
  rfl

/-- No file is cancelled when the files are analysed one after the other. -/
theorem cancel_notMem_sequential (files : List Path) : cancel ∉ sequential files := by
  simp [sequential]

/-- Without the cancellations, events among which there is none stay as they are. -/
theorem filter_ne_cancel {events : List Event} (h : cancel ∉ events) :
    events.filter (· ≠ cancel) = events := by
  rw [List.filter_eq_self]
  intro event hevent
  exact decide_eq_true fun heq => h (heq ▸ hevent)

/-- One worker is enough for the files one after the other. -/
theorem fitsWorkers_sequential {workers : Nat} (h : 0 < workers) (files : List Path) :
    fitsWorkers workers 0 (sequential files) = true := by
  induction files with
  | nil => rfl
  | cons path rest ih =>
    rw [sequential_cons]
    simp [fitsWorkers, h, ih]

/-- Whether a file is late does not depend on what happens to another one. -/
theorem isLate_filter {path gone : Path} (hne : path ≠ gone) (events : List Event) :
    isLate path (events.filter fun event => !isAbout gone event) = isLate path events := by
  induction events with
  | nil => rfl
  | cons event rest ih =>
    cases event with
    | start other =>
      by_cases hother : other = gone
      · subst hother
        simp [isLate, ih, hne.symm]
      · simp [isLate, ih, hother]
    | finish other => by_cases hother : other = gone <;> simp [isLate, ih, hother]
    | cancel => simp [isLate, isAbout, path?]

end Event

namespace Progress

/-- Only a file that is waiting can be taken up. -/
theorem eq_of_awaited_eq_start {path : Path} {progress : Option Progress} {rest : List Event}
    (h : awaited path progress = .start path :: rest) : progress = some waiting := by
  cases progress with
  | none => simp [awaited] at h
  | some progress => cases progress <;> simp_all [awaited]

/-- Only a file that has been taken up can be finished. -/
theorem eq_of_awaited_eq_finish {path : Path} {progress : Option Progress} {rest : List Event}
    (h : awaited path progress = .finish path :: rest) :
    ∃ isCancelled, progress = some (started isCancelled) := by
  cases progress with
  | none => simp [awaited] at h
  | some progress => cases progress <;> simp_all [awaited]

end Progress

namespace Pool

variable (config : Config) (read : Path → Option String)

@[simp] theorem set_progress_self (pool : Pool) (path : Path) (progress : Progress) :
    (pool.set path progress).progress path = some progress := by
  simp [set]

theorem set_progress_of_ne (pool : Pool) {path other : Path} (progress : Progress)
    (h : other ≠ path) : (pool.set path progress).progress other = pool.progress other := by
  simp [set, h]

/-- The events are, for every file, what is still to happen to it. -/
def Fits (pool : Pool) (events : List Event) : Prop :=
  ∀ path, events.filter (Event.isAbout path) = Progress.awaited path (pool.progress path)

/-- What becomes of a file when the analysis goes on with the events. -/
def fate (pool : Pool) (path : Path) (events : List Event) : Option FileResult :=
  match pool.progress path with
  | some .waiting =>
    some (analyzeOne config (pool.isCancelled || Event.isLate path events) path (read path))
  | some (.started isCancelled) => some (analyzeOne config isCancelled path (read path))
  | some (.finished result) => some result
  | none => none

/-- When an event makes the progress that was awaited of its file, the later events are what is
still to happen. -/
theorem Fits.set {pool : Pool} {event : Event} {events : List Event}
    (h : pool.Fits (event :: events)) {path : Path} (hevent : event.path? = some path)
    {progress : Progress} (hprogress : Progress.awaited path (pool.progress path) =
      event :: Progress.awaited path (some progress)) : (pool.set path progress).Fits events := by
  intro other
  have hother := h other
  by_cases heq : other = path
  · subst heq
    rw [hprogress, List.filter_cons_of_pos (by simp [Event.isAbout, hevent])] at hother
    rw [set_progress_self]
    exact (List.cons.inj hother).2
  · rw [List.filter_cons_of_neg (by simp [Event.isAbout, hevent, Ne.symm heq])] at hother
    rw [set_progress_of_ne pool _ heq]
    exact hother

/-- The next event of a schedule can happen. It leaves a schedule, and does not change what becomes
of any file. -/
theorem Fits.step {pool : Pool} {event : Event} {events : List Event}
    (h : pool.Fits (event :: events)) :
    ∃ next, pool.step? config read event = some next ∧ next.Fits events ∧
      ∀ path, next.fate config read path events = pool.fate config read path (event :: events) := by
  cases event with
  | start path =>
    have hnext : Progress.awaited path (pool.progress path) =
        .start path :: events.filter (Event.isAbout path) := by
      rw [← h path, List.filter_cons_of_pos (by simp)]
    have hprogress := Progress.eq_of_awaited_eq_start hnext
    refine ⟨pool.set path (.started pool.isCancelled), by simp [step?, hprogress],
      h.set rfl (by rw [hprogress]; rfl), ?_⟩
    intro other
    by_cases hother : other = path
    · subst hother
      simp [fate, hprogress, Event.isLate]
    · simp [fate, Pool.set, hother, Event.isLate, Ne.symm hother]
  | finish path =>
    have hnext : Progress.awaited path (pool.progress path) =
        .finish path :: events.filter (Event.isAbout path) := by
      rw [← h path, List.filter_cons_of_pos (by simp)]
    obtain ⟨isCancelled, hprogress⟩ := Progress.eq_of_awaited_eq_finish hnext
    refine ⟨pool.set path (.finished (analyzeOne config isCancelled path (read path))),
      by simp [step?, hprogress], h.set rfl (by rw [hprogress]; rfl), ?_⟩
    intro other
    by_cases hother : other = path
    · subst hother
      simp [fate, hprogress]
    · simp [fate, Pool.set, hother, Event.isLate]
  | cancel =>
    refine ⟨{ pool with isCancelled := true }, rfl, ?_, ?_⟩
    · intro path
      simpa [Event.isAbout, Event.path?] using h path
    · intro path
      simp [fate, Event.isLate]

/-- A schedule runs to its end, where what was to become of the files has become of them. -/
theorem Fits.run {pool : Pool} {events : List Event} (h : pool.Fits events) :
    ∃ last, pool.after? config read events = some last ∧
      ∀ path, last.result? path = pool.fate config read path events := by
  induction events generalizing pool with
  | nil =>
    refine ⟨pool, rfl, ?_⟩
    intro path
    have hpath := h path
    cases hprogress : pool.progress path with
    | none => simp [result?, fate, hprogress]
    | some progress => cases progress <;> simp_all [result?, fate, Progress.awaited]
  | cons event rest ih =>
    obtain ⟨next, hnext, hfits, hfate⟩ := h.step config read
    obtain ⟨last, hlast, hresult⟩ := ih hfits
    refine ⟨last, by simp [after?, hnext, hlast], ?_⟩
    intro path
    rw [hresult, hfate]

/-- When all files are finished, their results are found in the order of the files. -/
theorem mapM_result? {pool : Pool} {results : Path → FileResult} {files : List Path}
    (h : ∀ path ∈ files, pool.result? path = some (results path)) :
    files.mapM pool.result? = some (files.map results) := by
  induction files with
  | nil => rfl
  | cons path rest ih =>
    have hrest := ih fun other hother => h other (List.mem_cons_of_mem path hother)
    rw [List.mapM_cons, h path List.mem_cons_self, hrest]
    rfl

end Pool

/-- What becomes of a file when the analysis goes by a schedule. -/
def resultOf (config : Config) (read : Path → Option String) (events : List Event) (path : Path) :
    FileResult :=
  analyzeOne config (Event.isLate path events) path (read path)

namespace IsSchedule

variable {files : List Path} {events : List Event}

/-- A schedule is what is still to happen when all files are waiting. -/
theorem fits (h : IsSchedule files events) : (Pool.ofFiles files).Fits events := by
  intro path
  by_cases hpath : path ∈ files
  · rw [h.once path hpath]
    simp [Pool.ofFiles, hpath, Progress.awaited]
  · have hnone : events.filter (Event.isAbout path) = [] := by
      rw [List.filter_eq_nil_iff]
      intro event hevent habout
      exact hpath (h.known event hevent path (by simpa [Event.isAbout] using habout))
    simp [hnone, Pool.ofFiles, hpath, Progress.awaited]

/-- Every schedule gives an outcome: the one of what becomes of each file, in the order of the
files. -/
theorem outcome?_eq (h : IsSchedule files events) (config : Config) (read : Path → Option String)
    (seconds : Float) :
    outcome? config files read events seconds =
      some (.ofResults (files.map (resultOf config read events)) seconds) := by
  obtain ⟨last, hlast, hresult⟩ := h.fits.run config read
  have hresults : files.mapM last.result? = some (files.map (resultOf config read events)) := by
    apply Pool.mapM_result?
    intro path hpath
    rw [hresult]
    simp [Pool.fate, Pool.ofFiles, hpath, resultOf]
  simp only [outcome?, hlast, hresults, Option.map_some]

/-- Without a file and what happens to it, a schedule is one of the other files. -/
theorem filter_ne (h : IsSchedule files events) (gone : Path) :
    IsSchedule (files.filter (· ≠ gone)) (events.filter fun event => !event.isAbout gone) where
  once path hpath := by
    obtain ⟨hmem, hne⟩ : path ∈ files ∧ path ≠ gone := by simpa using hpath
    rw [List.filter_filter, ← h.once path hmem]
    apply List.filter_congr
    intro event _
    by_cases hevent : event.path? = some path <;> simp [Event.isAbout, hevent, hne]
  known event hevent path hpath := by
    obtain ⟨hmem, hother⟩ := List.mem_filter.mp hevent
    have hne : path ≠ gone := by
      rintro rfl
      simp [Event.isAbout, Option.mem_def.mp hpath] at hother
    simpa [hne] using h.known event hmem path hpath

/-- The files one after the other are a schedule. -/
theorem sequential (hfiles : files.Nodup) : IsSchedule files (Event.sequential files) where
  once path hpath := by
    induction files with
    | nil => simp at hpath
    | cons first rest ih =>
      obtain ⟨hfirst, hrest⟩ := List.nodup_cons.mp hfiles
      by_cases heq : first = path
      · subst heq
        have hnone : (Event.sequential rest).filter (Event.isAbout first) = [] := by
          rw [List.filter_eq_nil_iff]
          intro event hevent
          obtain ⟨other, hother, hevent⟩ := List.mem_flatMap.mp hevent
          have hne : other ≠ first := fun heq => hfirst (heq ▸ hother)
          rcases List.mem_pair.mp hevent with rfl | rfl <;> simp [hne]
        simp [Event.sequential_cons, hnone]
      · have hpath : path ∈ rest := by simpa [Ne.symm heq] using hpath
        simpa [Event.sequential_cons, heq] using ih hrest hpath
  known event hevent path hpath := by
    obtain ⟨other, hother, hevent⟩ := List.mem_flatMap.mp hevent
    rcases List.mem_pair.mp hevent with rfl | rfl <;>
    · obtain rfl : other = path := by simpa [Event.path?] using hpath
      exact hother

/-- A schedule stays one when the analysis is cancelled at other moments. -/
theorem of_filter_ne_cancel {other : List Event} (h : IsSchedule files other)
    (heq : events.filter (· ≠ .cancel) = other.filter (· ≠ .cancel)) :
    IsSchedule files events where
  once path hpath := by
    have habout (among : List Event) : (among.filter (· ≠ .cancel)).filter (Event.isAbout path) =
        among.filter (Event.isAbout path) := by
      rw [List.filter_filter]
      apply List.filter_congr
      intro event _
      cases event <;> simp [Event.isAbout, Event.path?]
    rw [← habout, heq, habout]
    exact h.once path hpath
  known event hevent path hpath := by
    have hkept : event ∈ events.filter (· ≠ .cancel) := by
      refine List.mem_filter.mpr ⟨hevent, ?_⟩
      cases event <;> simp_all [Event.path?]
    rw [heq] at hkept
    exact h.known event (List.mem_filter.mp hkept).1 path hpath

end IsSchedule

namespace Config.Admits

variable {config : Config} {machine : Machine} {files : List Path} {events : List Event}

/-- The runs that a configuration admits are schedules. -/
theorem isSchedule (h : config.Admits machine files events) (hfiles : files.Nodup) :
    IsSchedule files events := by
  unfold Admits at h
  split at h
  · apply (IsSchedule.sequential hfiles).of_filter_ne_cancel
    rw [h, Event.filter_ne_cancel (Event.cancel_notMem_sequential files)]
  · exact h.1

/-- Every configuration admits the files one after the other. -/
theorem sequential (config : Config) (machine : Machine) (hfiles : files.Nodup) :
    config.Admits machine files (Event.sequential files) := by
  unfold Admits
  split
  · exact Event.filter_ne_cancel (Event.cancel_notMem_sequential files)
  case isFalse hpool =>
    refine ⟨IsSchedule.sequential hfiles, Event.fitsWorkers_sequential ?_ files⟩
    simp only [isSequential, Bool.or_eq_true, decide_eq_true_eq, not_or] at hpool
    omega

end Config.Admits

end CodeQuality
