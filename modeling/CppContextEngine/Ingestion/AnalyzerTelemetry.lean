import CppContextEngine.Foundation.Fallible
import CppContextEngine.Foundation.EventLog
import CppContextEngine.Ingestion.AnalyzerPipeline

/-!
# Telemetry of the analyzer pipeline

`telemetry.py`: the events of the scheduler and the gate that bounds how long an
analyzer slot is idle while there is work for it and room for its registry.
Times are exact here.
-/

namespace CppContextEngine.Ingestion.AnalyzerPipeline

open CppContextEngine.Foundation

variable {Time : Type} [AddCommGroup Time] [LinearOrder Time]

/-! ## Events -/

namespace Occasion

/-- `slot_id` -/
def slot : Occasion → Option Nat
  | analyzerStarted slot _ | analyzerFinished slot _ _ => some slot
  | schedulingState | conversionStarted _ | conversionFinished _ _ => none

end Occasion

/-- What `AnalyzerPipelineEvent.__post_init__` accepts. -/
structure AnalyzerPipelineEvent (Time : Type) [AddCommGroup Time] [LinearOrder Time] where
  sequence : Nat
  monotonicSeconds : Time
  occasion : Occasion
  unscheduledCount : Nat
  heldRegistries : Nat
  maxSpoolRegistries : Nat
  slotCount : Nat
  sequence_pos : 0 < sequence
  seconds_nonneg : 0 ≤ monotonicSeconds
  held_le : heldRegistries ≤ maxSpoolRegistries
  limits_pos : 0 < maxSpoolRegistries ∧ 0 < slotCount
  slot_lt : ∀ slot, occasion.slot = some slot → slot < slotCount

/-! ## The gate -/

/-- `_SlotState` -/
structure SlotState (Time : Type) where
  active : Bool
  idleSince : Option Time
  maximumIdleSeconds : Time
  maximumIdleCause : Option String
  configurationIndex : Option Nat
  outcome : Option Outcome

def SlotState.fresh : SlotState Time where
  active := false
  idleSince := none
  maximumIdleSeconds := 0
  maximumIdleCause := none
  configurationIndex := none
  outcome := none

/-- The errors of `observe`, in its words. -/
inductive GateError where
  | sequenceNotContiguous
  | timeMovedBackwards
  | slotCountChanged
  | startedTwice (slot : Nat)
  | finishedUnexpectedWork (slot : Nat)
  | slotIdle (slot : Nat)
  | noSlot
  deriving DecidableEq, Repr

structure AnalyzerSlotIdleGate (Time : Type) [AddCommGroup Time] [LinearOrder Time] where
  maxIdleSeconds : Time
  positive : 0 < maxIdleSeconds
  slots : Option (List (SlotState Time))
  lastSequence : Nat
  lastEventTime : Time
  unscheduledCount : Nat
  heldRegistries : Nat
  maxSpoolRegistries : Nat

namespace SlotState

def idleCause : String := "unscheduled_with_spool_capacity"

variable (state : SlotState Time)

/-- One round of the loop in `_measure_idle`. -/
def measureIdle (now limit : Time) (slot : Nat) : Except GateError (SlotState Time) :=
  match state.idleSince with
  | none => pure state
  | some since => do
      let duration := now - since
      throwIf (limit < duration) (GateError.slotIdle slot)
      pure (if state.maximumIdleSeconds < duration then
        { state with
          maximumIdleSeconds := duration
          maximumIdleCause := some idleCause }
        else state)

/-- One round of the loop in `_apply_current_idle_state`. -/
def applyIdleState (actionable : Bool) (now : Time) : SlotState Time :=
  if state.active || !actionable then { state with idleSince := none }
  else { state with idleSince := some (state.idleSince.getD now) }

end SlotState

namespace AnalyzerSlotIdleGate

def fresh (maxIdleSeconds : Time) (positive : 0 < maxIdleSeconds) : AnalyzerSlotIdleGate Time where
  maxIdleSeconds := maxIdleSeconds
  positive := positive
  slots := none
  lastSequence := 0
  lastEventTime := 0
  unscheduledCount := 0
  heldRegistries := 0
  maxSpoolRegistries := 1

variable (gate : AnalyzerSlotIdleGate Time) (event : AnalyzerPipelineEvent Time)

/-- The slots are made by the first event. -/
def slotsFor : Except GateError (List (SlotState Time)) :=
  match gate.slots with
  | none => pure (List.replicate event.slotCount .fresh)
  | some slots => do
      throwIf (slots.length ≠ event.slotCount) GateError.slotCountChanged
      pure slots

/-- `_measure_idle`, with `enforce` -/
def measureIdle (slots : List (SlotState Time)) (now : Time) :
    Except GateError (List (SlotState Time)) :=
  slots.zipIdx.mapM fun entry => entry.1.measureIdle now gate.maxIdleSeconds entry.2

/-- What an event says of its slot. -/
def move (slots : List (SlotState Time)) : Except GateError (List (SlotState Time)) :=
  match event.occasion with
  | .analyzerStarted slot index =>
      match slots[slot]? with
      | none => throw .noSlot
      | some state => do
          throwIf (state.active = true) (GateError.startedTwice slot)
          pure (slots.set slot { state with
            active := true
            idleSince := none
            configurationIndex := some index
            outcome := none })
  | .analyzerFinished slot index outcome =>
      match slots[slot]? with
      | none => throw .noSlot
      | some state => do
          throwIf (state.active = false ∨ state.configurationIndex ≠ some index)
            (GateError.finishedUnexpectedWork slot)
          pure (slots.set slot { state with
            active := false
            configurationIndex := some index
            outcome := some outcome })
  | .schedulingState | .conversionStarted _ | .conversionFinished _ _ => pure slots

/-- `_idle_is_actionable` -/
def idleIsActionable : Bool :=
  0 < gate.unscheduledCount && gate.heldRegistries < gate.maxSpoolRegistries

/-- The counts of the last event. -/
def told : AnalyzerSlotIdleGate Time :=
  { gate with
    lastSequence := event.sequence
    lastEventTime := event.monotonicSeconds
    unscheduledCount := event.unscheduledCount
    heldRegistries := event.heldRegistries
    maxSpoolRegistries := event.maxSpoolRegistries }

def observe : Except GateError (AnalyzerSlotIdleGate Time) := do
  throwIf (event.sequence ≠ gate.lastSequence + 1) GateError.sequenceNotContiguous
  throwIf (event.monotonicSeconds < gate.lastEventTime) GateError.timeMovedBackwards
  let slots ← gate.slotsFor event
  let measured ← gate.measureIdle slots event.monotonicSeconds
  let told := gate.told event
  let moved ← move event measured
  pure { told with
    slots := some (moved.map fun state =>
      state.applyIdleState told.idleIsActionable event.monotonicSeconds) }

/-- The gate after all events of a log. -/
def observeAll (log : List (AnalyzerPipelineEvent Time)) :
    Except GateError (AnalyzerSlotIdleGate Time) :=
  log.foldlM observe gate

end AnalyzerSlotIdleGate

/-! ## What a log says -/

/-- What runs on a slot behind the event. -/
def Occasion.next (slot : Nat) (current : Option Nat) : Occasion → Option Nat
  | analyzerStarted other index => if other = slot then some index else current
  | analyzerFinished other _ _ => if other = slot then none else current
  | schedulingState | conversionStarted _ | conversionFinished _ _ => current

/-- The configuration that a slot works on at the end. -/
def runningOn (occasions : List Occasion) (slot : Nat) : Option Nat :=
  occasions.foldl (Occasion.next slot) none

/-- There is work for a slot, and room for the registry. -/
def AnalyzerPipelineEvent.actionable (event : AnalyzerPipelineEvent Time) : Bool :=
  0 < event.unscheduledCount && event.heldRegistries < event.maxSpoolRegistries

variable (log : List (AnalyzerPipelineEvent Time))

def occasions : List Occasion := log.map fun event => event.occasion

/-- Whether a slot is idle, with work and room for it, behind each event. -/
def idleSamples (slot : Nat) : List (Time × Bool) :=
  log.zipIdx.map fun entry =>
    (entry.1.monotonicSeconds,
      entry.1.actionable && (runningOn (occasions (log.take (entry.2 + 1))) slot).isNone)

/-- A slot starts only when it is idle, and finishes only what it has started. -/
def MayFollow (before : List Occasion) : Occasion → Prop
  | .analyzerStarted slot _ => runningOn before slot = none
  | .analyzerFinished slot index _ => runningOn before slot = some index
  | .schedulingState | .conversionStarted _ | .conversionFinished _ _ => True

/-- An event that the protocol allows behind a log. -/
structure Follows (event : AnalyzerPipelineEvent Time) : Prop where
  sequence : event.sequence = log.length + 1
  time : ∀ earlier ∈ log, earlier.monotonicSeconds ≤ event.monotonicSeconds
  slotCount : ∀ earlier ∈ log, earlier.slotCount = event.slotCount
  occasion : MayFollow (occasions log) event.occasion

/-- No slot is idle for longer than the limit, with work and room for it. -/
def NeverIdle (limit : Time) : Prop :=
  ∀ event ∈ log, ∀ slot < event.slotCount, ∀ start stop,
    Stretch (idleSamples log slot) start stop → stop - start ≤ limit

end CppContextEngine.Ingestion.AnalyzerPipeline
