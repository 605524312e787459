import CppContextEngine.Ingestion.AnalyzerPipelineRegistries
import CppContextEngine.Ingestion.AnalyzerTelemetryRuns

/-!
# Reports of the analyzer pipeline

What the pipeline tells its dispatcher in any run follows the protocol of the idle
gate, so the gate can only stop a run for a slot that was idle for too long.
-/

namespace CppContextEngine.Ingestion.AnalyzerPipeline

open CppContextEngine.Foundation

variable {Time : Type} [AddCommGroup Time] [LinearOrder Time]

/-! ## The dispatcher -/

/-- `max(self._last_time, time.monotonic())` for each event. -/
def observedAt (clock : Nat → Time) : Nat → Time
  | 0 => max 0 (clock 0)
  | index + 1 => max (observedAt clock index) (clock (index + 1))

/-- The checks of an event that the dispatcher's own values can fail. -/
def Report.accepted (settings : Settings) (report : Report) : Bool :=
  report.heldRegistries ≤ settings.maxSpoolRegistries &&
    report.occasion.slot.all fun slot => slot < settings.workerCount

theorem observedAt_nonneg (clock : Nat → Time) (index : Nat) : 0 ≤ observedAt clock index := by
  induction index with
  | zero => exact le_max_left _ _
  | succ index ih => exact ih.trans (le_max_left _ _)

theorem observedAt_mono (clock : Nat → Time) : Monotone (observedAt clock) :=
  monotone_nat_of_le_succ fun _ => le_max_left _ _

/-- The event of `_enqueue_locked`. -/
def enqueue (settings : Settings) (clock : Nat → Time) (index : Nat) (report : Report) :
    Option (AnalyzerPipelineEvent Time) :=
  if h : report.accepted settings = true then
    some
      { sequence := index + 1
        monotonicSeconds := observedAt clock index
        occasion := report.occasion
        unscheduledCount := report.unscheduledCount
        heldRegistries := report.heldRegistries
        maxSpoolRegistries := settings.maxSpoolRegistries
        slotCount := settings.workerCount
        sequence_pos := Nat.succ_pos index
        seconds_nonneg := observedAt_nonneg clock index
        held_le := by
          simp only [Report.accepted, Bool.and_eq_true, decide_eq_true_eq] at h
          exact h.1
        limits_pos := ⟨settings.positive.2.1, Settings.workerCount_pos⟩
        slot_lt := by
          intro slot hslot
          simpa [Report.accepted, hslot] using (Bool.and_eq_true_iff.mp h).2 }
  else none

/-- The events of all reports, if the dispatcher can make them. -/
def enqueueAll (settings : Settings) (clock : Nat → Time) (reports : List Report) :
    Option (List (AnalyzerPipelineEvent Time)) :=
  reports.zipIdx.mapM fun entry => enqueue settings clock entry.2 entry.1

/-! ## What the reports of a run say -/

variable {settings : Settings} {s next : State}

/-- What has been said of the slots. -/
def State.occasions (s : State) : List Occasion := s.reports.map Report.occasion

variable (settings) in
/-- The reports can be made and follow the protocol. -/
structure Reported (s : State) : Prop where
  accepted : ∀ report ∈ s.reports, report.accepted settings = true
  told_le : s.told.2 ≤ settings.maxSpoolRegistries
  orderly : Orderly MayFollow s.occasions

/-- A slot is reported to work on a configuration exactly while it does. -/
def Occupied (s : State) : Prop :=
  ∀ slot index, runningOn s.occasions slot = some index ↔
    s.analysis index = .running ∧ s.slotOf index = slot

theorem reported_initial : Reported settings (initial settings) where
  accepted := by simp [initial, Report.accepted, Occasion.slot]
  told_le := Nat.zero_le _
  orderly := by
    change Orderly MayFollow ([] ++ [Occasion.schedulingState])
    exact orderly_append.mpr ⟨orderly_nil, trivial⟩

theorem occupied_initial : Occupied (initial settings) := by
  simp [Occupied, State.occasions, initial, runningOn, Occasion.next]

theorem Reported.report (h : Reported settings s) (occasion : Occasion)
    (hslot : ∀ slot, occasion.slot = some slot → slot < settings.workerCount)
    (hfollow : MayFollow s.occasions occasion) : Reported settings (s.report occasion) where
  accepted := by
    intro report hreport
    rcases List.mem_append.mp hreport with hold | hlast
    · exact h.accepted report hold
    · rw [List.mem_singleton.mp hlast]
      have htold := h.told_le
      cases hcase : occasion.slot with
      | none => simp [Report.accepted, hcase, htold]
      | some slot => simp [Report.accepted, hcase, htold, hslot slot hcase]
  told_le := h.told_le
  orderly := by
    unfold State.occasions State.report
    rw [List.map_append]
    exact orderly_append.mpr ⟨h.orderly, hfollow⟩

theorem Reported.updateState (h : Reported settings s)
    (hheld : s.heldRegistries ≤ settings.maxSpoolRegistries) :
    Reported settings (s.updateState settings) where
  accepted := by
    intro report hreport
    rcases List.mem_append.mp hreport with hold | hlast
    · exact h.accepted report hold
    · rw [List.mem_singleton.mp hlast]
      simp [Report.accepted, Occasion.slot, hheld]
  told_le := hheld
  orderly := by
    unfold State.occasions State.updateState
    rw [List.map_append]
    exact orderly_append.mpr ⟨h.orderly, trivial⟩

theorem Invariant.slot_lt (h : Invariant settings s) {index : Nat}
    (hactive : (s.analysis index).active = true) : s.slotOf index < settings.workerCount :=
  h.slotted.below index (h.submitted.mem_futures hactive)

/-- Two analyses that are under way have different slots. -/
theorem Invariant.eq_of_slot (h : Invariant settings s) {index other : Nat}
    (hindex : (s.analysis index).active = true) (hother : (s.analysis other).active = true)
    (hslot : s.slotOf index = s.slotOf other) : index = other :=
  h.slotted.injective (h.submitted.mem_futures hindex) (h.submitted.mem_futures hother) hslot

/-- What is reported as the start of a queued analysis. -/
theorem Occupied.mayStart (h : Occupied s) (hinvariant : Invariant settings s) {index : Nat}
    (htask : s.analysis index = .queued) :
    MayFollow s.occasions (.analyzerStarted (s.slotOf index) index) := by
  by_contra hnot
  obtain ⟨other, hother⟩ := Option.ne_none_iff_exists'.mp hnot
  obtain ⟨hrunning, hslot⟩ := (h _ other).mp hother
  have heq := hinvariant.eq_of_slot (by rw [hrunning]; rfl) (by rw [htask]; rfl) hslot
  rw [heq, htask] at hrunning
  cases hrunning

theorem reported_step (h : Reported settings s) (hoccupied : Occupied s)
    (hinvariant : Invariant settings s) (hstep : Step settings s next) :
    Reported settings next := by
  cases hstep with
  | coordinator hstep =>
      cases hstep with
      | wake | halt | refuse | fail | collect | convert | converted | scheduled | finish | pause
      | breakdown => exact { h with }
      | schedule _ hmay =>
          let scheduled : State := { s with
            nextConfiguration := s.nextConfiguration + 1
            heldRegistries := s.heldRegistries + 1 }
          have hscheduled : Reported settings scheduled := { h with }
          exact { hscheduled.updateState hmay.2.2 with }
  | consumer hstep =>
      cases hstep with
      | take | raise | complete | stop | join | drain | close | exit => exact { h with }
      | resume | abandon =>
          let freed : State := { s with heldRegistries := s.heldRegistries - 1 }
          have hfreed : Reported settings freed := { h with }
          exact { hfreed.updateState ((Nat.sub_le _ _).trans hinvariant.counted.held_le) with }
  | worker hstep =>
      cases hstep with
      | openFile | write | endAnalysis | endConversion => exact { h with }
      | @beginAnalysis index htask =>
          have hreport := h.report (.analyzerStarted (s.slotOf index) index)
            (by
              rintro slot ⟨⟩
              exact hinvariant.slot_lt (by rw [htask]; rfl))
            (hoccupied.mayStart hinvariant htask)
          exact { hreport with }
      | @analyzed index outcome htask | @notAnalyzed index outcome htask =>
          have hreport := h.report (.analyzerFinished (s.slotOf index) index outcome)
            (by
              rintro slot ⟨⟩
              exact hinvariant.slot_lt (by rw [htask]; rfl))
            ((hoccupied _ index).mpr ⟨htask, rfl⟩)
          exact { hreport with }
      | @beginConversion index =>
          have hreport := h.report (.conversionStarted index) nofun trivial
          exact { hreport with }
      | @converted index _ outcome =>
          have hreport := h.report (.conversionFinished index outcome) nofun trivial
          exact { hreport with }

/-- The slots are as before when no analysis starts or ends. -/
theorem Occupied.of_same (h : Occupied s)
    (hoccasions : ∀ slot, runningOn next.occasions slot = runningOn s.occasions slot)
    (htasks : ∀ index, next.analysis index = .running ↔ s.analysis index = .running)
    (hslots : ∀ index, s.analysis index = .running → next.slotOf index = s.slotOf index) :
    Occupied next := by
  intro slot index
  rw [hoccasions, h, htasks]
  constructor
  · rintro ⟨hrunning, hslot⟩
    exact ⟨hrunning, (hslots index hrunning).trans hslot⟩
  · rintro ⟨hrunning, hslot⟩
    exact ⟨hrunning, (hslots index hrunning).symm.trans hslot⟩

@[simp] theorem occasions_report (occasion : Occasion) :
    (s.report occasion).occasions = s.occasions ++ [occasion] := by
  simp [State.occasions, State.report]

theorem Occupied.starts (h : Occupied s) (hinvariant : Invariant settings s) {index : Nat}
    (htask : s.analysis index = .queued) :
    Occupied ((s.report (.analyzerStarted (s.slotOf index) index)).analyze index .running) := by
  intro slot other
  have hold := h slot other
  change runningOn (s.report _).occasions slot = _ ↔ _
  rw [occasions_report, runningOn_append]
  simp only [Occasion.next, State.analyze, State.report]
  by_cases hsame : other = index
  · subst hsame
    have hnot : runningOn s.occasions slot ≠ some other := by
      rw [ne_eq, hold, htask]
      simp
    by_cases hslot : s.slotOf other = slot <;> simp [hslot, hnot]
  · rw [Function.update_of_ne hsame]
    by_cases hslot : s.slotOf index = slot
    · simp only [hslot, ↓reduceIte, Option.some.injEq, Ne.symm hsame, false_iff, not_and]
      intro hrunning hother
      exact hsame (hinvariant.eq_of_slot (by rw [hrunning]; rfl) (by rw [htask]; rfl)
        (hother.trans hslot.symm))
    · simpa [hslot] using hold

theorem Occupied.ends (h : Occupied s) (hinvariant : Invariant settings s) {index : Nat}
    (htask : s.analysis index = .running) (outcome : Outcome) {task : Task}
    (hended : task ≠ .running) :
    Occupied ((s.report (.analyzerFinished (s.slotOf index) index outcome)).analyze index task) := by
  intro slot other
  have hold := h slot other
  change runningOn (s.report _).occasions slot = _ ↔ _
  rw [occasions_report, runningOn_append]
  simp only [Occasion.next, State.analyze, State.report]
  by_cases hsame : other = index
  · subst hsame
    have hnot : s.slotOf other ≠ slot → runningOn s.occasions slot ≠ some other := by
      intro hslot
      rw [ne_eq, hold]
      exact fun hrunning => hslot hrunning.2
    by_cases hslot : s.slotOf other = slot
    · simp [hslot, hended]
    · simp [hslot, hnot hslot]
  · rw [Function.update_of_ne hsame]
    by_cases hslot : s.slotOf index = slot
    · simp only [hslot, ↓reduceIte, reduceCtorEq, false_iff, not_and]
      intro hrunning hother
      exact hsame (hinvariant.eq_of_slot (by rw [hrunning]; rfl) (by rw [htask]; rfl)
        (hother.trans hslot.symm))
    · simpa [hslot] using hold

theorem Occupied.cancelFutures (h : Occupied s) : Occupied s.cancelFutures := by
  refine h.of_same (fun _ => rfl) ?_ (fun _ _ => rfl)
  intro index
  by_cases hmem : index ∈ s.analysisFutures
  · cases htask : s.analysis index <;> simp [State.cancelFutures, hmem, htask, Task.cancel]
  · simp [State.cancelFutures, hmem]

/-- An event that is not about a slot. -/
theorem Occupied.reports (h : Occupied s) (occasion : Occasion)
    (hoccasions : next.occasions = s.occasions ++ [occasion]) (hnone : occasion.slot = none)
    (htasks : next.analysis = s.analysis) (hslots : next.slotOf = s.slotOf) : Occupied next := by
  apply h.of_same _ (fun _ => by rw [htasks]) (fun _ _ => by rw [hslots])
  intro slot
  rw [hoccasions, runningOn_append]
  cases occasion with
  | analyzerStarted | analyzerFinished => cases hnone
  | schedulingState | conversionStarted | conversionFinished => rfl

theorem Occupied.submitAnalysis (h : Occupied s) (hinvariant : Invariant settings s)
    (slot : Nat) : Occupied (s.submitAnalysis settings slot) := by
  have hnew := (hinvariant.submitted.analysis_iff s.nextConfiguration).mpr le_rfl
  apply h.of_same
  · intro other
    simp [State.submitAnalysis, State.analyze, State.updateState, State.occasions, runningOn,
      Occasion.next]
  · intro index
    by_cases hsame : index = s.nextConfiguration
    · simp [State.submitAnalysis, State.analyze, State.updateState, hsame, hnew]
    · simp [State.submitAnalysis, State.analyze, State.updateState, hsame]
  · intro index hrunning
    have hne : index ≠ s.nextConfiguration := by
      rintro rfl
      rw [hnew] at hrunning
      cases hrunning
    simp [State.submitAnalysis, hne]

theorem occupied_step (h : Occupied s) (hinvariant : Invariant settings s)
    (hstep : Step settings s next) : Occupied next := by
  cases hstep with
  | coordinator hstep =>
      cases hstep with
      | wake | halt | collect | convert | converted | scheduled | finish | pause | breakdown =>
          exact h
      | refuse => exact h.cancelFutures
      | fail =>
          have hcollected : Occupied s.collect := h
          exact hcollected.cancelFutures
      | schedule => exact h.submitAnalysis hinvariant _
  | consumer hstep =>
      cases hstep with
      | take | raise | complete | join | drain | close | exit => exact h
      | stop => exact h.cancelFutures
      | resume | abandon =>
          exact h.reports .schedulingState
            (by simp [State.occasions, State.giveBack, State.updateState]) rfl rfl rfl
  | worker hstep =>
      cases hstep with
      | openFile | write | endConversion => exact h
      | beginAnalysis htask => exact h.starts hinvariant htask
      | analyzed htask => exact h.ends hinvariant htask _ (by simp)
      | notAnalyzed htask => exact h.ends hinvariant htask _ (by simp)
      | @endAnalysis index success htask =>
          refine h.of_same (fun _ => rfl) ?_ (fun _ _ => rfl)
          intro other
          by_cases hsame : other = index
          · simp [State.analyze, hsame, htask]
          · simp [State.analyze, hsame]
      | beginConversion => exact h.reports _ (occasions_report _) rfl rfl rfl
      | converted => exact h.reports _ (occasions_report _) rfl rfl rfl

/-! ## The gate on a run -/

theorem Reachable.reported (h : Reachable settings s) : Reported settings s ∧ Occupied s := by
  induction h with
  | refl => exact ⟨reported_initial, occupied_initial⟩
  | tail hrun hstep ih =>
      have hinvariant := Reachable.invariant hrun
      exact ⟨reported_step ih.1 ih.2 hinvariant hstep, occupied_step ih.2 hinvariant hstep⟩

theorem enqueue_of_accepted (clock : Nat → Time) (index : Nat) {report : Report}
    (haccepted : report.accepted settings = true) :
    ∃ event, enqueue settings clock index report = some event ∧
      event.sequence = index + 1 ∧ event.monotonicSeconds = observedAt clock index ∧
      event.slotCount = settings.workerCount ∧ event.occasion = report.occasion := by
  unfold enqueue
  rw [dif_pos haccepted]
  exact ⟨_, rfl, rfl, rfl, rfl, rfl⟩

/-- The events of reports that follow the protocol. -/
theorem exists_enqueueAll (clock : Nat → Time) {reports : List Report}
    (haccepted : ∀ report ∈ reports, report.accepted settings = true)
    (horderly : Orderly MayFollow (reports.map Report.occasion)) :
    ∃ log, enqueueAll settings clock reports = some log ∧ Orderly Follows log ∧
      occasions log = reports.map Report.occasion ∧ log.length = reports.length ∧
      ∀ event ∈ log, event.slotCount = settings.workerCount ∧
        ∃ index < reports.length, event.monotonicSeconds = observedAt clock index := by
  induction reports using List.reverseRecOn with
  | nil => exact ⟨[], rfl, orderly_nil, rfl, rfl, by simp⟩
  | append_singleton reports report ih =>
      rw [List.map_append, List.map_singleton, orderly_append] at horderly
      obtain ⟨log, hlog, hfollows, hoccasions, hlength, hevents⟩ :=
        ih (fun other hother => haccepted other (List.mem_append_left _ hother)) horderly.1
      obtain ⟨event, hevent, hsequence, htime, hcount, hoccasion⟩ :=
        enqueue_of_accepted clock reports.length (haccepted report (by simp))
      refine ⟨log ++ [event], ?_, ?_, ?_, ?_, ?_⟩
      · unfold enqueueAll at hlog ⊢
        rw [List.zipIdx_append, List.mapM_append, hlog]
        simp [hevent]
      · refine orderly_append.mpr ⟨hfollows, ?_⟩
        exact
          { sequence := by rw [hsequence, hlength]
            time := by
              intro earlier hearlier
              obtain ⟨-, index, hindex, hsame⟩ := hevents earlier hearlier
              rw [hsame, htime]
              exact observedAt_mono clock hindex.le
            slotCount := by
              intro earlier hearlier
              rw [(hevents earlier hearlier).1, hcount]
            occasion := by
              rw [hoccasions, hoccasion]
              exact horderly.2 }
      · rw [occasions_append, hoccasions, hoccasion, List.map_append, List.map_singleton]
      · simp [hlength]
      · intro other hother
        rw [List.length_append, List.length_singleton]
        rcases List.mem_append.mp hother with hother | hlast
        · obtain ⟨hcounts, index, hindex, hsame⟩ := hevents other hother
          exact ⟨hcounts, index, by omega, hsame⟩
        · rw [List.mem_singleton.mp hlast]
          exact ⟨hcount, reports.length, by omega, htime⟩

variable [IsOrderedAddMonoid Time]

end CppContextEngine.Ingestion.AnalyzerPipeline
