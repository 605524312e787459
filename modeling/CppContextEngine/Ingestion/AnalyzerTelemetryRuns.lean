import CppContextEngine.Ingestion.AnalyzerTelemetry
import Mathlib.Algebra.Order.Group.Int

/-!
# Runs of the idle gate

The gate keeps a stopwatch for each slot.  It takes a log exactly when the events
follow each other as the protocol says and no slot was idle for too long.
-/

namespace CppContextEngine.Ingestion.AnalyzerPipeline

open CppContextEngine.Foundation

variable {Time : Type} [AddCommGroup Time] [LinearOrder Time]
variable {log : List (AnalyzerPipelineEvent Time)} {event : AnalyzerPipelineEvent Time}

/-! ## Logs -/

@[simp] theorem occasions_append :
    occasions (log ++ [event]) = occasions log ++ [event.occasion] := by
  simp [occasions]

theorem runningOn_append (before : List Occasion) (occasion : Occasion) (slot : Nat) :
    runningOn (before ++ [occasion]) slot = occasion.next slot (runningOn before slot) := by
  simp [runningOn]

theorem idleSamples_append (slot : Nat) :
    idleSamples (log ++ [event]) slot = idleSamples log slot ++
      [(event.monotonicSeconds,
        event.actionable && (runningOn (occasions (log ++ [event])) slot).isNone)] := by
  unfold idleSamples
  rw [List.zipIdx_append, List.map_append]
  congr 1
  · apply List.map_congr_left
    intro entry hentry
    have hlt : entry.2 < log.length := by
      have := List.snd_lt_of_mem_zipIdx hentry
      simpa using this
    rw [List.take_append_of_le_length hlt]
  · simp [List.take_of_length_le]

theorem mem_idleSamples {slot : Nat} {sample : Time × Bool} (h : sample ∈ idleSamples log slot) :
    ∃ earlier ∈ log, earlier.monotonicSeconds = sample.1 := by
  obtain ⟨entry, hentry, rfl⟩ := List.mem_map.mp h
  exact ⟨entry.1, List.fst_mem_of_mem_zipIdx hentry, rfl⟩

theorem sorted_of_orderly (h : Orderly Follows log) (slot : Nat) :
    (idleSamples log slot).Pairwise fun earlier later => earlier.1 ≤ later.1 := by
  induction log using List.reverseRecOn with
  | nil => simp [idleSamples]
  | append_singleton log event ih =>
      obtain ⟨hlog, hevent⟩ := orderly_append.mp h
      rw [idleSamples_append, List.pairwise_append]
      refine ⟨ih hlog, by simp, ?_⟩
      intro sample hsample last hlast
      obtain ⟨earlier, hearlier, hsame⟩ := mem_idleSamples hsample
      rw [List.mem_singleton.mp hlast, ← hsame]
      exact hevent.time earlier hearlier

/-- No slot has been idle for too long when an event comes. -/
def InTime (log : List (AnalyzerPipelineEvent Time)) (limit : Time)
    (event : AnalyzerPipelineEvent Time) : Prop :=
  ∀ slot < event.slotCount, ∀ start, OpenStretch (idleSamples log slot) start →
    event.monotonicSeconds - start ≤ limit

theorem neverIdle_append {limit : Time} (hfollows : Follows log event) :
    NeverIdle (log ++ [event]) limit ↔ NeverIdle log limit ∧ InTime log limit event := by
  constructor
  · intro h
    constructor
    · intro earlier hearlier slot hslot start stop hstretch
      refine h earlier (List.mem_append_left _ hearlier) slot hslot start stop ?_
      rw [idleSamples_append]
      exact stretch_append.mpr (.inl hstretch)
    · intro slot hslot start hopen
      refine h event (by simp) slot hslot start _ ?_
      rw [idleSamples_append]
      exact stretch_append.mpr (.inr ⟨hopen, rfl⟩)
  · rintro ⟨hlog, hevent⟩ other hother slot hslot start stop hstretch
    have hcount : other.slotCount = event.slotCount := by
      rcases List.mem_append.mp hother with hother | hother
      · exact hfollows.slotCount other hother
      · rw [List.mem_singleton.mp hother]
    rw [idleSamples_append] at hstretch
    rcases stretch_append.mp hstretch with hold | ⟨hopen, rfl⟩
    · cases log with
      | nil =>
          obtain ⟨first, last, -, -, hstart, -⟩ := hold
          simp [idleSamples] at hstart
      | cons earlier rest =>
          have hearlier : earlier ∈ earlier :: rest := List.mem_cons_self
          exact hlog earlier hearlier slot
            (hfollows.slotCount earlier hearlier ▸ hcount ▸ hslot) start stop hold
    · exact hevent slot (hcount ▸ hslot) start hopen

/-! ## Slots -/

namespace SlotState

/-- The idle time of a slot. -/
def watch (state : SlotState Time) : Stopwatch Time where
  since := state.idleSince
  longest := state.maximumIdleSeconds

/-- What `_measure_idle` leaves of a slot that it accepts. -/
def measured (state : SlotState Time) (now : Time) : SlotState Time :=
  match state.idleSince with
  | none => state
  | some since =>
      if state.maximumIdleSeconds < now - since then
        { state with
          maximumIdleSeconds := now - since
          maximumIdleCause := some idleCause }
      else state

/-- A slot at the end of a log. -/
structure Tracks (state : SlotState Time) (log : List (AnalyzerPipelineEvent Time)) (slot : Nat) :
    Prop where
  active : state.active = (runningOn (occasions log) slot).isSome
  index : ∀ index, runningOn (occasions log) slot = some index → state.configurationIndex = some index
  watch : state.watch = Stopwatch.run (idleSamples log slot)

theorem tracks_fresh (slot : Nat) : (fresh : SlotState Time).Tracks [] slot where
  active := rfl
  index := by simp [runningOn, occasions]
  watch := rfl

variable {state : SlotState Time}

theorem measureIdle_eq_ok {now limit : Time} {slot : Nat} {result : SlotState Time} :
    state.measureIdle now limit slot = .ok result ↔
      (∀ since, state.idleSince = some since → now - since ≤ limit) ∧
        result = state.measured now := by
  unfold measureIdle measured
  cases hsince : state.idleSince with
  | none => simp [pure, Except.pure, eq_comm]
  | some since =>
      simp only [bind_eq_ok, throwIf_eq_ok, not_lt, Option.some.injEq, forall_eq']
      constructor
      · rintro ⟨-, hle, hok⟩
        cases hok
        exact ⟨hle, rfl⟩
      · rintro ⟨hle, rfl⟩
        exact ⟨(), hle, rfl⟩

theorem watch_measured (now : Time) : (state.measured now).watch = state.watch.measure now := by
  unfold measured Stopwatch.measure watch
  cases hsince : state.idleSince with
  | none => simp [hsince]
  | some since =>
      by_cases hlt : state.maximumIdleSeconds < now - since
      · simp [hlt, max_eq_right hlt.le]
      · simp [hlt, hsince, max_eq_left (not_lt.mp hlt)]

@[simp] theorem active_measured (now : Time) : (state.measured now).active = state.active := by
  unfold measured
  split
  · rfl
  · split <;> rfl

@[simp] theorem configurationIndex_measured (now : Time) :
    (state.measured now).configurationIndex = state.configurationIndex := by
  unfold measured
  split
  · rfl
  · split <;> rfl

end SlotState

/-- What `move` leaves of a slot. -/
def AnalyzerPipelineEvent.moved (event : AnalyzerPipelineEvent Time) (slot : Nat)
    (state : SlotState Time) : SlotState Time :=
  match event.occasion with
  | .analyzerStarted other index =>
      if other = slot then
        { state with
          active := true
          idleSince := none
          configurationIndex := some index
          outcome := none }
      else state
  | .analyzerFinished other index outcome =>
      if other = slot then
        { state with
          active := false
          configurationIndex := some index
          outcome := some outcome }
      else state
  | .schedulingState | .conversionStarted _ | .conversionFinished _ _ => state

section Moved

variable {state : SlotState Time} {slot : Nat}

theorem active_moved {current : Option Nat} (h : state.active = current.isSome) :
    (event.moved slot state).active = (event.occasion.next slot current).isSome := by
  unfold AnalyzerPipelineEvent.moved Occasion.next
  cases event.occasion with
  | analyzerStarted other | analyzerFinished other =>
      by_cases hslot : other = slot <;> simp [hslot, h]
  | schedulingState | conversionStarted | conversionFinished => exact h

theorem configurationIndex_moved {current : Option Nat}
    (h : ∀ index, current = some index → state.configurationIndex = some index) (index : Nat)
    (hnext : event.occasion.next slot current = some index) :
    (event.moved slot state).configurationIndex = some index := by
  unfold Occasion.next at hnext
  unfold AnalyzerPipelineEvent.moved
  cases hoccasion : event.occasion with
  | analyzerStarted other =>
      rw [hoccasion] at hnext
      by_cases hslot : other = slot
      · simpa [hslot] using hnext
      · simpa [hslot] using h index (by simpa [hslot] using hnext)
  | analyzerFinished other =>
      rw [hoccasion] at hnext
      by_cases hslot : other = slot
      · simp [hslot] at hnext
      · simpa [hslot] using h index (by simpa [hslot] using hnext)
  | schedulingState | conversionStarted | conversionFinished =>
      rw [hoccasion] at hnext
      exact h index hnext

/-- A slot that starts is active, so its stopwatch stops in any case. -/
theorem mark_moved (actionable : Bool) (now : Time) :
    (event.moved slot state).watch.mark now (actionable && !(event.moved slot state).active) =
      state.watch.mark now (actionable && !(event.moved slot state).active) := by
  unfold AnalyzerPipelineEvent.moved
  split
  · split
    · simp [Stopwatch.mark, SlotState.watch]
    · rfl
  · split <;> rfl
  · rfl
  · rfl
  · rfl

omit [AddCommGroup Time] [LinearOrder Time] in
theorem watch_applyIdleState (actionable : Bool) (now : Time) :
    (state.applyIdleState actionable now).watch =
      state.watch.mark now (actionable && !state.active) := by
  unfold SlotState.applyIdleState
  cases hactive : state.active <;> cases actionable <;>
    simp [Stopwatch.mark, SlotState.watch]

end Moved

/-- The event gives the slot's stopwatch its next sample. -/
theorem SlotState.Tracks.step {state : SlotState Time} {slot : Nat} (h : state.Tracks log slot) :
    ((event.moved slot (state.measured event.monotonicSeconds)).applyIdleState event.actionable
      event.monotonicSeconds).Tracks (log ++ [event]) slot := by
  have hactive : (event.moved slot (state.measured event.monotonicSeconds)).active =
      (event.occasion.next slot (runningOn (occasions log) slot)).isSome :=
    active_moved (by simp [h.active])
  have hkeep : ∀ other : SlotState Time,
      (other.applyIdleState event.actionable event.monotonicSeconds).active = other.active ∧
      (other.applyIdleState event.actionable event.monotonicSeconds).configurationIndex =
        other.configurationIndex := by
    intro other
    unfold SlotState.applyIdleState
    split <;> simp
  exact
    { active := by rw [(hkeep _).1, hactive, occasions_append, runningOn_append]
      index := by
        intro index hindex
        rw [occasions_append, runningOn_append] at hindex
        rw [(hkeep _).2]
        exact configurationIndex_moved (by simpa using h.index) index hindex
      watch := by
        rw [watch_applyIdleState, mark_moved, watch_measured, h.watch, hactive,
          idleSamples_append, Stopwatch.run_append_singleton, occasions_append, runningOn_append]
        simp [Stopwatch.observe, Option.not_isSome] }

/-! ## The gate -/

namespace AnalyzerSlotIdleGate

section Move

variable {slots : List (SlotState Time)}

theorem getElem?_move {moved : List (SlotState Time)} (h : move event slots = .ok moved)
    (slot : Nat) : moved[slot]? = slots[slot]?.map (event.moved slot) := by
  unfold move at h
  unfold AnalyzerPipelineEvent.moved
  cases hoccasion : event.occasion with
  | analyzerStarted other index =>
      rw [hoccasion] at h
      cases hstate : slots[other]? with
      | none => simp [hstate, throw, throwThe, MonadExceptOf.throw] at h
      | some state =>
          simp only [hstate, bind_eq_ok] at h
          obtain ⟨-, -, hok⟩ := h
          cases hok
          by_cases hslot : other = slot
          · subst hslot
            rw [List.getElem?_set_self (List.getElem?_eq_some_iff.mp hstate).1, hstate]
            simp
          · simp [hslot]
  | analyzerFinished other index outcome =>
      rw [hoccasion] at h
      cases hstate : slots[other]? with
      | none => simp [hstate, throw, throwThe, MonadExceptOf.throw] at h
      | some state =>
          simp only [hstate, bind_eq_ok] at h
          obtain ⟨-, -, hok⟩ := h
          cases hok
          by_cases hslot : other = slot
          · subst hslot
            rw [List.getElem?_set_self (List.getElem?_eq_some_iff.mp hstate).1, hstate]
            simp
          · simp [hslot]
  | schedulingState | conversionStarted | conversionFinished =>
      rw [hoccasion] at h
      cases h
      simp

theorem length_move {moved : List (SlotState Time)} (h : move event slots = .ok moved) :
    moved.length = slots.length := by
  have hsame : ∀ slot : Nat, moved[slot]? = none ↔ slots[slot]? = none := by
    intro slot
    rw [getElem?_move h, Option.map_eq_none_iff]
  simp only [List.getElem?_eq_none_iff] at hsame
  exact le_antisymm ((hsame _).mpr le_rfl) ((hsame _).mp le_rfl)

/-- Only an event that the protocol allows moves the slots. -/
theorem exists_move_iff (hlength : slots.length = event.slotCount)
    (htracks : ∀ slot state, slots[slot]? = some state →
      state.active = (runningOn (occasions log) slot).isSome ∧
      ∀ index, runningOn (occasions log) slot = some index → state.configurationIndex = some index) :
    (∃ moved, move event slots = .ok moved) ↔
      MayFollow (occasions log) event.occasion := by
  have hslot := event.slot_lt
  unfold move
  cases hoccasion : event.occasion with
  | analyzerStarted slot index =>
      have hlt := hlength ▸ hslot slot (by rw [hoccasion]; rfl)
      have hstate := List.getElem?_eq_getElem hlt
      obtain ⟨hactive, -⟩ := htracks slot _ hstate
      simp only [hstate, bind_eq_ok, throwIf_eq_ok, hactive]
      cases hrunning : runningOn (occasions log) slot <;>
        simp [MayFollow, hrunning, pure, Except.pure]
  | analyzerFinished slot index outcome =>
      have hlt := hlength ▸ hslot slot (by rw [hoccasion]; rfl)
      have hstate := List.getElem?_eq_getElem hlt
      obtain ⟨hactive, hindex⟩ := htracks slot _ hstate
      simp only [hstate, bind_eq_ok, throwIf_eq_ok, hactive]
      cases hrunning : runningOn (occasions log) slot with
      | none => simp [MayFollow, hrunning]
      | some other => simp [MayFollow, hrunning, hindex other hrunning, pure, Except.pure]
  | schedulingState | conversionStarted | conversionFinished => simp [MayFollow, pure, Except.pure]

end Move

/-- The gate at the end of a log. -/
structure Tracks (gate : AnalyzerSlotIdleGate Time) (log : List (AnalyzerPipelineEvent Time))
    (limit : Time) : Prop where
  limit : gate.maxIdleSeconds = limit
  orderly : Orderly Follows log
  sequence : gate.lastSequence = log.length
  time_le : ∀ earlier ∈ log, earlier.monotonicSeconds ≤ gate.lastEventTime
  time_mem : gate.lastEventTime = 0 ∨
    ∃ earlier ∈ log, earlier.monotonicSeconds = gate.lastEventTime
  unused : gate.slots = none ↔ log = []
  slots : ∀ slots, gate.slots = some slots →
    (∀ earlier ∈ log, earlier.slotCount = slots.length) ∧
    ∀ (slot : Nat) (state : SlotState Time), slots[slot]? = some state → state.Tracks log slot

theorem tracks_fresh (limit : Time) (positive : 0 < limit) :
    (fresh limit positive).Tracks [] limit where
  limit := rfl
  orderly := orderly_nil
  sequence := rfl
  time_le := by simp
  time_mem := .inl rfl
  unused := by simp [fresh]
  slots := by simp [fresh]

variable {gate next : AnalyzerSlotIdleGate Time} {limit : Time}

theorem Tracks.time_iff (h : gate.Tracks log limit) :
    ¬ event.monotonicSeconds < gate.lastEventTime ↔
      ∀ earlier ∈ log, earlier.monotonicSeconds ≤ event.monotonicSeconds := by
  rw [not_lt]
  constructor
  · exact fun hle earlier hearlier => (h.time_le earlier hearlier).trans hle
  · intro hle
    rcases h.time_mem with hzero | ⟨earlier, hearlier, hsame⟩
    · rw [hzero]
      exact event.seconds_nonneg
    · rw [← hsame]
      exact hle earlier hearlier

/-- The slots are as many as the event says, unless the log says otherwise. -/
theorem Tracks.exists_slotsFor_iff (h : gate.Tracks log limit) :
    (∃ slots, gate.slotsFor event = .ok slots) ↔
      ∀ earlier ∈ log, earlier.slotCount = event.slotCount := by
  unfold slotsFor
  cases hslots : gate.slots with
  | none => simp [h.unused.mp hslots, pure, Except.pure]
  | some slots =>
      have hcounts := (h.slots slots hslots).1
      simp only [bind_eq_ok, throwIf_eq_ok, ne_eq, not_not]
      constructor
      · rintro ⟨-, -, hlength, -⟩ earlier hearlier
        rw [hcounts earlier hearlier, hlength]
      · intro hsame
        obtain ⟨earlier, hearlier⟩ := List.exists_mem_of_ne_nil log fun hnil => by
          rw [h.unused.mpr hnil] at hslots
          cases hslots
        refine ⟨slots, (), ?_, rfl⟩
        rw [← hcounts earlier hearlier, hsame earlier hearlier]

theorem Tracks.of_slotsFor (h : gate.Tracks log limit) {slots : List (SlotState Time)}
    (hslots : gate.slotsFor event = .ok slots) :
    slots.length = event.slotCount ∧
      ∀ (slot : Nat) (state : SlotState Time), slots[slot]? = some state →
        state.Tracks log slot := by
  unfold slotsFor at hslots
  cases hcase : gate.slots with
  | none =>
      rw [hcase] at hslots
      cases hslots
      rw [h.unused.mp hcase]
      refine ⟨List.length_replicate, ?_⟩
      intro slot state hstate
      rw [List.getElem?_replicate] at hstate
      split at hstate
      · cases hstate
        exact SlotState.tracks_fresh slot
      · cases hstate
  | some old =>
      simp only [hcase, bind_eq_ok, throwIf_eq_ok, ne_eq, not_not] at hslots
      obtain ⟨-, hlength, hok⟩ := hslots
      cases hok
      exact ⟨hlength, (h.slots _ hcase).2⟩

theorem measureIdle_eq_ok {slots measured : List (SlotState Time)} {now : Time} :
    gate.measureIdle slots now = .ok measured ↔
      (∀ (slot : Nat) (state : SlotState Time), slots[slot]? = some state →
        ∀ since, state.idleSince = some since → now - since ≤ gate.maxIdleSeconds) ∧
      measured = slots.map fun state => state.measured now := by
  have hmap : (slots.zipIdx.map fun entry => entry.1.measured now) =
      slots.map fun state => state.measured now := by
    rw [← List.zipIdx_map_fst 0 slots, List.map_map]
    simp
  unfold measureIdle
  rw [mapM_eq_ok_iff fun entry result => SlotState.measureIdle_eq_ok, hmap]
  simp only [Prod.forall, List.mem_zipIdx_iff_getElem?]
  rw [forall_comm]

variable [IsOrderedAddMonoid Time]

/-- The measured slots are in time exactly when no open stretch of the log is too long. -/
theorem Tracks.inTime_iff (h : gate.Tracks log limit) {slots : List (SlotState Time)}
    (hslots : gate.slotsFor event = .ok slots) :
    (∀ (slot : Nat) (state : SlotState Time), slots[slot]? = some state →
      ∀ since, state.idleSince = some since →
        event.monotonicSeconds - since ≤ gate.maxIdleSeconds) ↔ InTime log limit event := by
  obtain ⟨hlength, htracks⟩ := h.of_slotsFor hslots
  have hslot : ∀ (slot : Nat) (state : SlotState Time), slots[slot]? = some state →
      ((∀ since, state.idleSince = some since → event.monotonicSeconds - since ≤ limit) ↔
        ∀ start, OpenStretch (idleSamples log slot) start →
          event.monotonicSeconds - start ≤ limit) := by
    intro slot state hstate
    have hshows := Stopwatch.run_shows (sorted_of_orderly h.orderly slot)
    rw [← (htracks slot state hstate).watch] at hshows
    exact hshows.openStretch_le_iff
  rw [h.limit]
  constructor
  · intro hin slot hlt
    have hstate := List.getElem?_eq_getElem (hlength.symm ▸ hlt)
    exact (hslot slot _ hstate).mp (hin slot _ hstate)
  · intro hin slot state hstate
    have hlt := (List.getElem?_eq_some_iff.mp hstate).1
    exact (hslot slot state hstate).mpr (hin slot (hlength ▸ hlt))

omit [IsOrderedAddMonoid Time] in
/-- Measuring changes nothing that the moves of the slots look at. -/
theorem Tracks.exists_move_iff (h : gate.Tracks log limit) {slots : List (SlotState Time)}
    (hslots : gate.slotsFor event = .ok slots) (now : Time) :
    (∃ moved, move event (slots.map fun state => state.measured now) = .ok moved) ↔
      MayFollow (occasions log) event.occasion := by
  obtain ⟨hlength, htracks⟩ := h.of_slotsFor hslots
  apply AnalyzerSlotIdleGate.exists_move_iff (by simpa using hlength)
  intro slot state hstate
  obtain ⟨old, hold, rfl⟩ := Option.map_eq_some_iff.mp (List.getElem?_map ▸ hstate)
  have htrack := htracks slot old hold
  simpa using ⟨htrack.active, htrack.index⟩

theorem Tracks.exists_observe_iff (h : gate.Tracks log limit) :
    (∃ next, gate.observe event = .ok next) ↔ Follows log event ∧ InTime log limit event := by
  unfold observe
  simp only [bind_eq_ok, throwIf_eq_ok, ne_eq, not_not, h.time_iff, h.sequence,
    measureIdle_eq_ok]
  constructor
  · rintro ⟨next, -, hsequence, -, htime, slots, hslots, -, ⟨hin, rfl⟩, moved, hmoved, -⟩
    exact
      ⟨{ sequence := hsequence
         time := htime
         slotCount := h.exists_slotsFor_iff.mp ⟨slots, hslots⟩
         occasion := (h.exists_move_iff hslots _).mp ⟨moved, hmoved⟩ }, (h.inTime_iff hslots).mp hin⟩
  · rintro ⟨hfollows, hin⟩
    obtain ⟨slots, hslots⟩ := h.exists_slotsFor_iff.mpr hfollows.slotCount
    obtain ⟨moved, hmoved⟩ := (h.exists_move_iff hslots event.monotonicSeconds).mpr
      hfollows.occasion
    exact ⟨_, (), hfollows.sequence, (), hfollows.time, slots, hslots, _,
      ⟨(h.inTime_iff hslots).mpr hin, rfl⟩, moved, hmoved, rfl⟩

theorem Tracks.observe (h : gate.Tracks log limit) (hnext : gate.observe event = .ok next) :
    next.Tracks (log ++ [event]) limit := by
  obtain ⟨hfollows, -⟩ := h.exists_observe_iff.mp ⟨next, hnext⟩
  unfold AnalyzerSlotIdleGate.observe at hnext
  simp only [bind_eq_ok, measureIdle_eq_ok] at hnext
  obtain ⟨-, -, -, -, slots, hslots, measured, ⟨-, rfl⟩, moved, hmoved, hok⟩ := hnext
  cases hok
  obtain ⟨hlength, htracks⟩ := h.of_slotsFor hslots
  have hmovedLength : moved.length = event.slotCount := by
    have hsame := length_move hmoved
    rw [hsame, List.length_map, hlength]
  exact
    { limit := h.limit
      orderly := orderly_append.mpr ⟨h.orderly, hfollows⟩
      sequence := by
        rw [List.length_append]
        exact hfollows.sequence
      time_le := by
        intro earlier hearlier
        rcases List.mem_append.mp hearlier with hearlier | hlast
        · exact hfollows.time earlier hearlier
        · rw [List.mem_singleton.mp hlast]
          exact le_rfl
      time_mem := .inr ⟨event, by simp, rfl⟩
      unused := by simp [told]
      slots := by
        rintro slots ⟨⟩
        constructor
        · intro earlier hearlier
          rw [List.length_map, hmovedLength]
          rcases List.mem_append.mp hearlier with hearlier | hlast
          · exact hfollows.slotCount earlier hearlier
          · rw [List.mem_singleton.mp hlast]
        · intro slot state hstate
          rw [List.getElem?_map, getElem?_move hmoved, List.getElem?_map, Option.map_map,
            Option.map_map] at hstate
          obtain ⟨old, hold, rfl⟩ := Option.map_eq_some_iff.mp hstate
          exact (htracks slot old hold).step }

/-! ## Logs that the gate takes -/

omit [IsOrderedAddMonoid Time] in
theorem observeAll_append (gate : AnalyzerSlotIdleGate Time) :
    gate.observeAll (log ++ [event]) = gate.observeAll log >>= fun gate => gate.observe event := by
  simp [observeAll]

theorem tracks_of_observeAll (positive : 0 < limit)
    (h : (fresh limit positive).observeAll log = .ok gate) : gate.Tracks log limit := by
  induction log using List.reverseRecOn generalizing gate with
  | nil =>
      cases h
      exact tracks_fresh limit positive
  | append_singleton log event ih =>
      rw [observeAll_append, bind_eq_ok] at h
      obtain ⟨before, hbefore, hlast⟩ := h
      exact (ih hbefore).observe hlast

/-- The gate takes a log exactly when it is orderly and no slot has been idle,
with work and room for it, for longer than the limit. -/
theorem exists_observeAll_iff (positive : 0 < limit) :
    (∃ gate, (fresh limit positive).observeAll log = .ok gate) ↔
      Orderly Follows log ∧ NeverIdle log limit := by
  induction log using List.reverseRecOn with
  | nil => simp [observeAll, orderly_nil, NeverIdle, pure, Except.pure]
  | append_singleton log event ih =>
      rw [observeAll_append, orderly_append]
      simp only [bind_eq_ok]
      constructor
      · rintro ⟨gate, before, hbefore, hlast⟩
        obtain ⟨hfollows, hin⟩ :=
          (tracks_of_observeAll positive hbefore).exists_observe_iff.mp ⟨gate, hlast⟩
        obtain ⟨horderly, hnever⟩ := ih.mp ⟨before, hbefore⟩
        exact ⟨⟨horderly, hfollows⟩, (neverIdle_append hfollows).mpr ⟨hnever, hin⟩⟩
      · rintro ⟨⟨horderly, hfollows⟩, hnever⟩
        obtain ⟨hnever, hin⟩ := (neverIdle_append hfollows).mp hnever
        obtain ⟨before, hbefore⟩ := ih.mpr ⟨horderly, hnever⟩
        obtain ⟨gate, hlast⟩ :=
          (tracks_of_observeAll positive hbefore).exists_observe_iff.mpr ⟨hfollows, hin⟩
        exact ⟨gate, before, hbefore, hlast⟩

end AnalyzerSlotIdleGate

end CppContextEngine.Ingestion.AnalyzerPipeline
