import CppContextEngine.Foundation.SharedBudget
import Mathlib.Data.Finset.Max
import Mathlib.Logic.Relation

/-!
# The analyzer pipeline

`NativeClangIngestor.iter_configuration_batches` analyses and converts the
configurations of a project.  A coordinator submits the work under three limits,
workers finish it in any order, and the consumer gets the batches in the order
of the configurations.
-/

namespace CppContextEngine.Ingestion.AnalyzerPipeline

open CppContextEngine.Foundation

/-! ## Settings and telemetry -/

/-- The limits of `NativeClangIngestor`, for a selection that is not empty. -/
structure Settings where
  configurations : Nat
  maxWorkers : Nat
  maxSpoolRegistries : Nat
  maxSpoolBytes : Nat
  maxSpoolFds : Nat
  maxDomainBatches : Nat
  selected : 0 < configurations
  positive : 0 < maxWorkers ∧ 0 < maxSpoolRegistries ∧ 0 < maxSpoolBytes ∧ 0 < maxSpoolFds ∧
    0 < maxDomainBatches
  covered : maxWorkers ≤ maxSpoolRegistries

namespace Settings

variable (settings : Settings)

def workerCount : Nat := min settings.maxWorkers (max 1 settings.configurations)

/-- `self.max_domain_batches` -/
def domainBatches : Nat := min settings.maxDomainBatches settings.maxSpoolRegistries

end Settings

inductive Outcome where
  | succeeded
  | failed
  | cancelled
  deriving DecidableEq, Repr

/-- What an event says of a slot or of a conversion. -/
inductive Occasion where
  | schedulingState
  | analyzerStarted (slot index : Nat)
  | analyzerFinished (slot index : Nat) (outcome : Outcome)
  | conversionStarted (index : Nat)
  | conversionFinished (index : Nat) (outcome : Outcome)
  deriving DecidableEq, Repr

/-- An event of the dispatcher, with the counts that it was told last. -/
structure Report where
  occasion : Occasion
  unscheduledCount : Nat
  heldRegistries : Nat
  deriving DecidableEq, Repr

/-! ## States -/

/-- Where the call behind a future is. -/
inductive Task where
  | unsubmitted
  | queued
  | running
  /-- In its `finally`, behind the last event. -/
  | leaving (success : Bool)
  | finished (success : Bool)
  | cancelled
  deriving DecidableEq, Repr

namespace Task

/-- `future.done()` -/
def done : Task → Bool
  | finished _ | cancelled => true
  | unsubmitted | queued | running | leaving _ => false

/-- Submitted, and not done. -/
def active : Task → Bool
  | queued | running | leaving _ => true
  | unsubmitted | finished _ | cancelled => false

/-- `future.cancel()` -/
def cancel : Task → Task
  | queued => cancelled
  | task => task

end Task

/-- A `_FactRegistry`. -/
inductive Registry where
  | absent
  | opened
  | closed
  deriving DecidableEq, Repr

/-- Where the coordinator is in a turn; it holds the condition except when it waits. -/
inductive Coordinator where
  | checking
  | converting
  | scheduling
  | testing
  | waiting
  | returned
  deriving DecidableEq, Repr

/-- Where the generator is.  From `closing` on, `complete` says that its loop has ended. -/
inductive Consumer where
  | expecting (index : Nat)
  | yielding (index : Nat)
  | closing (complete : Bool)
  | joining (complete : Bool)
  | draining (complete : Bool)
  | releasing (complete : Bool)
  | exited (complete : Bool)
  deriving DecidableEq, Repr

inductive Failure where
  /-- `request_failure()` -/
  | request
  | task (index : Nat)
  /-- An exception in the coordinator itself. -/
  | breakdown
  deriving DecidableEq, Repr

structure State where
  analysis : Nat → Task
  conversion : Nat → Task
  registry : Nat → Registry
  /-- `spool_fds` -/
  files : SharedBudget Nat
  /-- `spool_bytes` -/
  bytes : SharedBudget Nat
  analysisFutures : Finset Nat
  /-- `analysis_slots` -/
  slotOf : Nat → Nat
  availableSlots : Finset Nat
  pendingRegistries : Finset Nat
  conversionFutures : Finset Nat
  conversionRegistries : Finset Nat
  nextConfiguration : Nat
  nextConversion : Nat
  heldRegistries : Nat
  coordinator : Coordinator
  consumer : Consumer
  stopped : Bool
  cancelled : Bool
  failure : Option Failure
  /-- The batches that the consumer has got. -/
  yielded : List Nat
  /-- How many of them it has given back. -/
  released : Nat
  /-- `_unscheduled_count` and `_held_registries` of the dispatcher. -/
  told : Nat × Nat
  reports : List Report

variable (settings : Settings)

def initial : State where
  analysis _ := .unsubmitted
  conversion _ := .unsubmitted
  registry _ := .absent
  files := .fresh settings.maxSpoolFds
  bytes := .fresh settings.maxSpoolBytes
  analysisFutures := ∅
  slotOf _ := 0
  availableSlots := Finset.range settings.workerCount
  pendingRegistries := ∅
  conversionFutures := ∅
  conversionRegistries := ∅
  nextConfiguration := 0
  nextConversion := 0
  heldRegistries := 0
  coordinator := .waiting
  consumer := .expecting 0
  stopped := false
  cancelled := false
  failure := none
  yielded := []
  released := 0
  told := (settings.configurations, 0)
  reports := [⟨.schedulingState, settings.configurations, 0⟩]

namespace State

variable (s : State)

/-- `_enqueue_locked` -/
def report (occasion : Occasion) : State :=
  { s with reports := s.reports ++ [⟨occasion, s.told.1, s.told.2⟩] }

/-- `update_state` -/
def updateState : State :=
  let told := (settings.configurations - s.nextConfiguration, s.heldRegistries)
  { s with told, reports := s.reports ++ [⟨.schedulingState, told.1, told.2⟩] }

def analyze (index : Nat) (task : Task) : State :=
  { s with analysis := Function.update s.analysis index task }

def convert (index : Nat) (task : Task) : State :=
  { s with conversion := Function.update s.conversion index task }

/-- `_FactRegistry.close` -/
def close (index : Nat) : State :=
  { s with
    registry := Function.update s.registry index .closed
    files := s.files.release index
    bytes := s.bytes.release index }

/-- `future.cancel()` for every future that is still listed. -/
def cancelFutures : State :=
  { s with
    cancelled := true
    analysis := fun index =>
      if index ∈ s.analysisFutures then (s.analysis index).cancel else s.analysis index
    conversion := fun index =>
      if index ∈ s.conversionFutures then (s.conversion index).cancel else s.conversion index }

/-- The analyses that a turn finds done. -/
def completed : Finset Nat := s.analysisFutures.filter fun index => (s.analysis index).done

/-- Done analyses leave the list and their slots; their registries wait for conversion. -/
def collect : State :=
  { s with
    analysisFutures := s.analysisFutures \ s.completed
    availableSlots := s.availableSlots ∪ s.completed.image s.slotOf
    pendingRegistries := s.pendingRegistries ∪
      s.completed.filter fun index => s.analysis index = .finished true }

/-- The futures whose exceptions a turn finds. -/
def failures : Finset Nat :=
  (s.analysisFutures.filter fun index => s.analysis index = .finished false) ∪
    s.conversionFutures.filter fun index => s.conversion index = .finished false

def unlocked : Prop := s.coordinator = .waiting ∨ s.coordinator = .returned

/-- `while next_conversion in pending_registries and …` -/
def mayConvert : Prop :=
  s.nextConversion ∈ s.pendingRegistries ∧ s.conversionFutures.card < settings.domainBatches

/-- `while next_configuration < len(selected) and …` -/
def maySchedule : Prop :=
  s.nextConfiguration < settings.configurations ∧
    s.analysisFutures.card < settings.workerCount ∧ s.heldRegistries < settings.maxSpoolRegistries

/-- `analyses_finished and conversions_finished` -/
def allFinished : Prop :=
  (s.nextConfiguration = settings.configurations ∧ s.analysisFutures = ∅) ∧
    s.pendingRegistries = ∅ ∧ ∀ index ∈ s.conversionFutures, (s.conversion index).done = true

/-- The pending registry that is next goes to a converter. -/
def submitConversion : State :=
  let index := s.nextConversion
  { s.convert index .queued with
    nextConversion := index + 1
    pendingRegistries := s.pendingRegistries.erase index
    conversionRegistries := insert index s.conversionRegistries
    conversionFutures := insert index s.conversionFutures }

/-- The next configuration goes to an analyzer, on a slot of its own. -/
def submitAnalysis (slot : Nat) : State :=
  let index := s.nextConfiguration
  let scheduled : State := { s with
    availableSlots := s.availableSlots.erase slot
    nextConfiguration := index + 1
    heldRegistries := s.heldRegistries + 1 }
  { (scheduled.updateState settings).analyze index .queued with
    slotOf := Function.update s.slotOf index slot
    analysisFutures := insert index s.analysisFutures }

/-- What the consumer gives back after a batch. -/
def giveBack (index : Nat) : State :=
  let freed : State := { s with
    conversionFutures := s.conversionFutures.erase index
    conversionRegistries := s.conversionRegistries.erase index
    heldRegistries := s.heldRegistries - 1
    released := s.released + 1 }
  freed.updateState settings

/-- The registries that the last loops of the generator close. -/
def leftover : Finset Nat :=
  s.pendingRegistries ∪ s.conversionRegistries ∪
    s.analysisFutures.filter fun index => s.analysis index = .finished true

/-- The outcome that a call tells when it ends.  It has read the flag some time before. -/
def mayTell (success : Bool) (outcome : Outcome) : Prop :=
  outcome = (if success then .succeeded else .failed) ∨
    s.cancelled = true ∧ outcome = .cancelled

end State

/-! ## Steps -/

/-- The turns of the coordinator.  Workers may run while a turn holds the condition. -/
inductive Coordinates (s : State) : State → Prop
  | wake : s.coordinator = .waiting → Coordinates s { s with coordinator := .checking }
  | halt : s.coordinator = .checking → s.stopped = true →
      Coordinates s { s with coordinator := .returned }
  | refuse : s.coordinator = .checking → s.stopped = false →
      Coordinates s { s.cancelFutures with failure := some .request, coordinator := .returned }
  | fail {index : Nat} : s.coordinator = .checking → s.stopped = false → index ∈ s.failures →
      (∀ other ∈ s.failures, index ≤ other) →
      Coordinates s
        { s.collect.cancelFutures with
          failure := some (.task index)
          coordinator := .returned }
  | collect : s.coordinator = .checking → s.stopped = false → s.failures = ∅ →
      Coordinates s { s.collect with coordinator := .converting }
  | convert : s.coordinator = .converting → s.mayConvert settings →
      Coordinates s s.submitConversion
  | converted : s.coordinator = .converting → ¬ s.mayConvert settings →
      Coordinates s { s with coordinator := .scheduling }
  | schedule {slot : Nat} : s.coordinator = .scheduling → s.maySchedule settings →
      slot ∈ s.availableSlots → (∀ other ∈ s.availableSlots, slot ≤ other) →
      Coordinates s (s.submitAnalysis settings slot)
  | scheduled : s.coordinator = .scheduling → ¬ s.maySchedule settings →
      Coordinates s { s with coordinator := .testing }
  | finish : s.coordinator = .testing → s.allFinished settings →
      Coordinates s { s with coordinator := .returned }
  | pause : s.coordinator = .testing → ¬ s.allFinished settings →
      Coordinates s { s with coordinator := .waiting }
  /-- `except BaseException` -/
  | breakdown : ¬ s.unlocked →
      Coordinates s
        { s with
          failure := some (s.failure.getD .breakdown)
          cancelled := true
          coordinator := .returned }

/-- The moves of the generator.  It can be left at a `yield`, and a request can fail. -/
inductive Consumes (s : State) : State → Prop
  | take {index : Nat} : s.unlocked → s.consumer = .expecting index →
      index < settings.configurations → s.failure = none → index ∈ s.conversionFutures →
      s.conversion index = .finished true →
      Consumes s { s with consumer := .yielding index, yielded := s.yielded ++ [index] }
  | raise {index : Nat} : s.unlocked → s.consumer = .expecting index →
      Consumes s { s with consumer := .closing false }
  | resume {index : Nat} : s.unlocked → s.consumer = .yielding index →
      Consumes s { s.giveBack settings index with consumer := .expecting (index + 1) }
  | abandon {index : Nat} : s.unlocked → s.consumer = .yielding index →
      Consumes s { s.giveBack settings index with consumer := .closing false }
  /-- The analyzer is the same as before, or not. -/
  | complete (same : Bool) : s.consumer = .expecting settings.configurations →
      Consumes s { s with consumer := .closing same }
  | stop {complete : Bool} : s.unlocked → s.consumer = .closing complete →
      Consumes s { s.cancelFutures with stopped := true, consumer := .joining complete }
  | join {complete : Bool} : s.consumer = .joining complete → s.coordinator = .returned →
      Consumes s { s with consumer := .draining complete }
  /-- Both executors have shut down. -/
  | drain {complete : Bool} : s.consumer = .draining complete →
      (∀ index, (s.analysis index).active = false ∧ (s.conversion index).active = false) →
      Consumes s { s with consumer := .releasing complete }
  | close {complete : Bool} {index : Nat} : s.consumer = .releasing complete →
      index ∈ s.leftover → s.registry index = .opened → Consumes s (s.close index)
  | exit {complete : Bool} : s.consumer = .releasing complete →
      (∀ index ∈ s.leftover, s.registry index ≠ .opened) →
      Consumes s { s with consumer := .exited complete }

/-- The steps of the two executors' threads. -/
inductive Works (s : State) : State → Prop
  | beginAnalysis {index : Nat} : s.analysis index = .queued →
      Works s
        { (s.report (.analyzerStarted (s.slotOf index) index)).analyze index .running with
          registry := Function.update s.registry index .opened }
  /-- A fact of a new kind opens a file. -/
  | openFile {index : Nat} {files : SharedBudget Nat} : s.analysis index = .running →
      s.files.acquire index 1 = some files → Works s { s with files }
  | write {index amount : Nat} {bytes : SharedBudget Nat} : s.analysis index = .running →
      s.bytes.acquire index amount = some bytes → Works s { s with bytes }
  | analyzed {index : Nat} {outcome : Outcome} : s.analysis index = .running →
      s.mayTell true outcome →
      Works s ((s.report (.analyzerFinished (s.slotOf index) index outcome)).analyze index
        (.leaving true))
  | notAnalyzed {index : Nat} {outcome : Outcome} : s.analysis index = .running →
      s.mayTell false outcome →
      Works s (((s.close index).report
        (.analyzerFinished (s.slotOf index) index outcome)).analyze index (.leaving false))
  | endAnalysis {index : Nat} {success : Bool} : s.analysis index = .leaving success →
      Works s (s.analyze index (.finished success))
  | beginConversion {index : Nat} : s.conversion index = .queued →
      Works s ((s.report (.conversionStarted index)).convert index .running)
  | converted {index : Nat} {success : Bool} {outcome : Outcome} :
      s.conversion index = .running → s.mayTell success outcome →
      Works s (((s.close index).report (.conversionFinished index outcome)).convert index
        (.leaving success))
  | endConversion {index : Nat} {success : Bool} : s.conversion index = .leaving success →
      Works s (s.convert index (.finished success))

inductive Step (s next : State) : Prop
  | coordinator : Coordinates settings s next → Step s next
  | consumer : Consumes settings s next → Step s next
  | worker : Works s next → Step s next

/-- The states of all runs. -/
def Reachable : State → Prop := Relation.ReflTransGen (Step settings) (initial settings)

end CppContextEngine.Ingestion.AnalyzerPipeline
