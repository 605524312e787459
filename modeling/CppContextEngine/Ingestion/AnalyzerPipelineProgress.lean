import CppContextEngine.Ingestion.AnalyzerPipelineRegistries
import Mathlib.Algebra.Order.BigOperators.Group.Finset

/-!
# Progress of the analyzer pipeline

As long as nothing has failed the pipeline can deliver every batch: no choice of
the limits and no order of the work leads to a state where all of its parties
wait for each other.
-/

namespace CppContextEngine.Ingestion.AnalyzerPipeline

open Relation

variable {settings : Settings} {s next : State}

/-! ## When the coordinator has returned -/

/-- The last block of the generator has begun. -/
def Consumer.stopping : Consumer → Bool
  | joining _ | draining _ | releasing _ | exited _ => true
  | _ => false

variable (settings) in
/-- The coordinator returns because of a failure, of the generator, or at the end of its work. -/
structure Halted (s : State) : Prop where
  stopped_iff : s.stopped = true ↔ s.consumer.stopping = true
  returned : s.coordinator = .returned → s.failure ≠ none ∨ s.stopped = true ∨
    s.nextConfiguration = settings.configurations ∧ s.analysisFutures = ∅ ∧
      s.pendingRegistries = ∅

theorem halted_initial : Halted settings (initial settings) where
  stopped_iff := by simp [initial, Consumer.stopping]
  returned := by simp [initial]

theorem halted_step (h : Halted settings s) (hstep : Step settings s next) :
    Halted settings next := by
  cases hstep with
  | coordinator hstep =>
      cases hstep with
      | wake | collect | convert | converted | schedule | scheduled | pause =>
          exact
            { stopped_iff := h.stopped_iff
              returned := by
                intro hreturned
                simp_all [State.submitConversion, State.submitAnalysis, State.convert,
                  State.analyze, State.updateState] }
      | halt _ hstopped =>
          exact
            { stopped_iff := h.stopped_iff
              returned := fun _ => .inr (.inl hstopped) }
      | refuse | fail | breakdown =>
          exact
            { stopped_iff := h.stopped_iff
              returned := fun _ => .inl (by simp) }
      | finish _ hfinished =>
          exact
            { stopped_iff := h.stopped_iff
              returned := fun _ => .inr (.inr ⟨hfinished.1.1, hfinished.1.2, hfinished.2.1⟩) }
  | consumer hstep =>
      have hstopped := h.stopped_iff
      cases hstep with
      | take _ hconsumer | raise _ hconsumer | complete _ hconsumer | join hconsumer
      | drain hconsumer | exit hconsumer =>
          exact
            { stopped_iff := by simpa [hconsumer, Consumer.stopping] using hstopped
              returned := h.returned }
      | resume _ hconsumer | abandon _ hconsumer =>
          have hsame := hstopped
          rw [hconsumer] at hsame
          exact { stopped_iff := hsame, returned := h.returned }
      | stop =>
          exact
            { stopped_iff := by simp [Consumer.stopping]
              returned := fun _ => .inr (.inl rfl) }
      | close => exact { h with }
  | worker hstep => cases hstep <;> exact { h with }

theorem Reachable.halted (h : Reachable settings s) : Halted settings s := by
  induction h with
  | refl => exact halted_initial
  | tail _ hstep ih => exact halted_step ih hstep

/-! ## What is left to do -/

namespace Task

/-- Neither failed nor cancelled. -/
def clean : Task → Bool
  | unsubmitted | queued | running | leaving true | finished true => true
  | leaving false | finished false | cancelled => false

def remaining : Task → Nat
  | unsubmitted => 4
  | queued => 3
  | running => 2
  | leaving _ => 1
  | finished _ | cancelled => 0

end Task

def Consumer.remaining (configurations : Nat) : Consumer → Nat
  | expecting index => 2 * (configurations - index) + 5
  | yielding index => 2 * (configurations - index) + 4
  | closing _ => 4
  | joining _ => 3
  | draining _ => 2
  | releasing _ => 1
  | exited _ => 0

/-- No call has failed, and the generator has not been left early. -/
structure Unfailed (s : State) : Prop where
  failure : s.failure = none
  analysis : ∀ index, (s.analysis index).clean = true
  conversion : ∀ index, (s.conversion index).clean = true
  consumer : s.consumer.complete ≠ some false

variable (settings) in
def State.remaining (s : State) : Nat :=
  ∑ index ∈ Finset.range settings.configurations,
    ((s.analysis index).remaining + (s.conversion index).remaining) +
  s.consumer.remaining settings.configurations

variable (settings) in
/-- Some steps without a failure bring the end nearer. -/
def Advances (s : State) : Prop :=
  ∃ later, ReflTransGen (Step settings) s later ∧ Unfailed later ∧
    later.remaining settings < s.remaining settings

theorem Unfailed.analyze (h : Unfailed s) {index : Nat} {task : Task} (htask : task.clean = true) :
    Unfailed (s.analyze index task) :=
  { h with
    analysis := by
      intro other
      by_cases hsame : other = index
      · simp [State.analyze, hsame, htask]
      · simp [State.analyze, hsame, h.analysis other] }

theorem Unfailed.convert (h : Unfailed s) {index : Nat} {task : Task} (htask : task.clean = true) :
    Unfailed (s.convert index task) :=
  { h with
    conversion := by
      intro other
      by_cases hsame : other = index
      · simp [State.convert, hsame, htask]
      · simp [State.convert, hsame, h.conversion other] }

theorem remaining_analyze {index : Nat} {task : Task} (hlt : index < settings.configurations)
    (htask : task.remaining < (s.analysis index).remaining) :
    (s.analyze index task).remaining settings < s.remaining settings := by
  apply Nat.add_lt_add_right
  apply Finset.sum_lt_sum
  · intro other _
    by_cases hsame : other = index
    · subst hsame
      simp [State.analyze]
      omega
    · simp [State.analyze, hsame]
  · exact ⟨index, Finset.mem_range.mpr hlt, by simpa [State.analyze] using htask⟩

theorem remaining_convert {index : Nat} {task : Task} (hlt : index < settings.configurations)
    (htask : task.remaining < (s.conversion index).remaining) :
    (s.convert index task).remaining settings < s.remaining settings := by
  apply Nat.add_lt_add_right
  apply Finset.sum_lt_sum
  · intro other _
    by_cases hsame : other = index
    · subst hsame
      simp [State.convert]
      omega
    · simp [State.convert, hsame]
  · exact ⟨index, Finset.mem_range.mpr hlt, by simpa [State.convert] using htask⟩

theorem Advances.of_step (hstep : Step settings s next) (hunfailed : Unfailed next)
    (hlt : next.remaining settings < s.remaining settings) : Advances settings s :=
  ⟨next, .single hstep, hunfailed, hlt⟩

theorem Advances.after {later : State} (h : Advances settings later)
    (hrun : ReflTransGen (Step settings) s later)
    (hremaining : later.remaining settings = s.remaining settings) : Advances settings s := by
  obtain ⟨final, hfinal, hunfailed, hlt⟩ := h
  exact ⟨final, hrun.trans hfinal, hunfailed, hremaining ▸ hlt⟩

/-! ## Workers -/

theorem advances_of_analysis (h : Reachable settings s) (hunfailed : Unfailed s) {index : Nat}
    (hactive : (s.analysis index).active = true) : Advances settings s := by
  have hlt := h.invariant.counted.lt_of_active h.invariant.submitted hactive
  have hclean := hunfailed.analysis index
  cases htask : s.analysis index with
  | queued =>
      have hnext : Unfailed (s.analyze index .running) := hunfailed.analyze rfl
      exact .of_step (.worker (.beginAnalysis htask)) { hnext with }
        (remaining_analyze (s := s) hlt (by simp [htask, Task.remaining]))
  | running =>
      have hnext : Unfailed (s.analyze index (.leaving true)) := hunfailed.analyze rfl
      have hsuccess : s.mayTell true .succeeded := .inl rfl
      exact .of_step (.worker (.analyzed htask hsuccess)) { hnext with }
        (remaining_analyze (s := s) hlt (by simp [htask, Task.remaining]))
  | leaving success =>
      rw [htask] at hclean
      cases success with
      | false => cases hclean
      | true =>
          exact .of_step (.worker (.endAnalysis htask)) (hunfailed.analyze rfl)
            (remaining_analyze hlt (by simp [htask, Task.remaining]))
  | unsubmitted | finished | cancelled => simp [htask, Task.active] at hactive

theorem advances_of_conversion (h : Reachable settings s) (hunfailed : Unfailed s) {index : Nat}
    (hactive : (s.conversion index).active = true) : Advances settings s := by
  have hlt : index < settings.configurations := by
    have hcounted := h.invariant.counted
    have hconverted := hcounted.converted_le
    have hscheduled := hcounted.scheduled_le
    by_contra hnot
    rw [(h.invariant.submitted.conversion_iff index).mpr (by omega)] at hactive
    cases hactive
  have hclean := hunfailed.conversion index
  cases htask : s.conversion index with
  | queued =>
      have hnext : Unfailed (s.convert index .running) := hunfailed.convert rfl
      exact .of_step (.worker (.beginConversion htask)) { hnext with }
        (remaining_convert (s := s) hlt (by simp [htask, Task.remaining]))
  | running =>
      have hnext : Unfailed (s.convert index (.leaving true)) := hunfailed.convert rfl
      have hsuccess : s.mayTell true .succeeded := .inl rfl
      exact .of_step (.worker (.converted htask hsuccess)) { hnext with }
        (remaining_convert (s := s) hlt (by simp [htask, Task.remaining]))
  | leaving success =>
      rw [htask] at hclean
      cases success with
      | false => cases hclean
      | true =>
          exact .of_step (.worker (.endConversion htask)) (hunfailed.convert rfl)
            (remaining_convert hlt (by simp [htask, Task.remaining]))
  | unsubmitted | finished | cancelled => simp [htask, Task.active] at hactive

/-! ## A turn of the coordinator -/

theorem Settings.domainBatches_pos : 0 < settings.domainBatches := by
  have hpositive := settings.positive
  unfold Settings.domainBatches
  omega

theorem advances_of_mayConvert (h : Reachable settings s) (hunfailed : Unfailed s)
    (hcoordinator : s.coordinator = .converting) (hmay : s.mayConvert settings) :
    Advances settings s := by
  have hcounted := h.invariant.counted
  have hlt : s.nextConversion < settings.configurations :=
    Nat.lt_of_lt_of_le (hcounted.pending_lt _ hmay.1) hcounted.scheduled_le
  have hunsubmitted := (h.invariant.submitted.conversion_iff s.nextConversion).mpr le_rfl
  have hnext : Unfailed (s.convert s.nextConversion .queued) := hunfailed.convert rfl
  exact .of_step (.coordinator (.convert hcoordinator hmay)) { hnext with }
    (remaining_convert (s := s) hlt (by simp [hunsubmitted, Task.remaining]))

theorem advances_of_maySchedule (h : Reachable settings s) (hunfailed : Unfailed s)
    (hcoordinator : s.coordinator = .scheduling) (hmay : s.maySchedule settings) :
    Advances settings s := by
  obtain ⟨slot, hslot, hleast⟩ := h.invariant.slotted.exists_slot hmay.2.1
  have hunsubmitted := (h.invariant.submitted.analysis_iff s.nextConfiguration).mpr le_rfl
  have hnext : Unfailed (s.analyze s.nextConfiguration .queued) := hunfailed.analyze rfl
  exact .of_step (.coordinator (.schedule hcoordinator hmay hslot hleast)) { hnext with }
    (remaining_analyze (s := s) hmay.1 (by simp [hunsubmitted, Task.remaining]))

theorem Unfailed.failures_eq (h : Unfailed s) : s.failures = ∅ := by
  apply Finset.eq_empty_of_forall_notMem
  intro index hindex
  rcases Finset.mem_union.mp hindex with hindex | hindex
  · have hclean := h.analysis index
    rw [(Finset.mem_filter.mp hindex).2] at hclean
    cases hclean
  · have hclean := h.conversion index
    rw [(Finset.mem_filter.mp hindex).2] at hclean
    cases hclean

variable (settings) in
/-- The turn ends without work for the coordinator, or the end comes nearer. -/
def Settles (s : State) : Prop :=
  Advances settings s ∨ ∃ later, ReflTransGen (Step settings) s later ∧ Unfailed later ∧
    later.remaining settings = s.remaining settings ∧ later.unlocked ∧
    later.consumer = s.consumer

theorem Settles.after_step (h : Settles settings next) (hstep : Coordinates settings s next)
    (hremaining : next.remaining settings = s.remaining settings) : Settles settings s := by
  have hrun : ReflTransGen (Step settings) s next := .single (.coordinator hstep)
  rcases h with hadvances | ⟨later, hlater, hunfailed, hsame, hunlocked, hconsumer⟩
  · exact .inl (hadvances.after hrun hremaining)
  · exact .inr ⟨later, hrun.trans hlater, hunfailed, hsame.trans hremaining, hunlocked,
      hconsumer.trans hstep.consumer_eq⟩

theorem settles_of_unlocked (hunfailed : Unfailed s) (hunlocked : s.unlocked) :
    Settles settings s :=
  .inr ⟨s, .refl, hunfailed, rfl, hunlocked, rfl⟩

theorem settles_of_testing (hunfailed : Unfailed s) (hcoordinator : s.coordinator = .testing) :
    Settles settings s := by
  by_cases hfinished : s.allFinished settings
  · have hnext : Unfailed { s with coordinator := .returned } := { hunfailed with }
    exact (settles_of_unlocked hnext (.inr rfl)).after_step (.finish hcoordinator hfinished) rfl
  · have hnext : Unfailed { s with coordinator := .waiting } := { hunfailed with }
    exact (settles_of_unlocked hnext (.inl rfl)).after_step (.pause hcoordinator hfinished) rfl

theorem settles_of_scheduling (h : Reachable settings s) (hunfailed : Unfailed s)
    (hcoordinator : s.coordinator = .scheduling) : Settles settings s := by
  by_cases hmay : s.maySchedule settings
  · exact .inl (advances_of_maySchedule h hunfailed hcoordinator hmay)
  · have hnext : Unfailed { s with coordinator := .testing } := { hunfailed with }
    exact (settles_of_testing hnext rfl).after_step (.scheduled hcoordinator hmay) rfl

theorem settles_of_converting (h : Reachable settings s) (hunfailed : Unfailed s)
    (hcoordinator : s.coordinator = .converting) : Settles settings s := by
  by_cases hmay : s.mayConvert settings
  · exact .inl (advances_of_mayConvert h hunfailed hcoordinator hmay)
  · have hstep := Coordinates.converted hcoordinator hmay
    have hnext : Unfailed { s with coordinator := .scheduling } := { hunfailed with }
    exact (settles_of_scheduling (h.tail (.coordinator hstep)) hnext rfl).after_step hstep rfl

theorem settles (h : Reachable settings s) (hunfailed : Unfailed s) : Settles settings s := by
  cases hcoordinator : s.coordinator with
  | waiting => exact settles_of_unlocked hunfailed (.inl hcoordinator)
  | returned => exact settles_of_unlocked hunfailed (.inr hcoordinator)
  | testing => exact settles_of_testing hunfailed hcoordinator
  | scheduling => exact settles_of_scheduling h hunfailed hcoordinator
  | converting => exact settles_of_converting h hunfailed hcoordinator
  | checking =>
      cases hstopped : s.stopped with
      | true =>
          have hnext : Unfailed { s with coordinator := .returned } := { hunfailed with }
          exact (settles_of_unlocked hnext (.inr rfl)).after_step (.halt hcoordinator hstopped) rfl
      | false =>
          have hstep : Coordinates settings s { s.collect with coordinator := .converting } :=
            .collect hcoordinator hstopped hunfailed.failures_eq
          have hnext : Unfailed { s.collect with coordinator := .converting } :=
            { hunfailed with }
          exact (settles_of_converting (h.tail (.coordinator hstep)) hnext rfl).after_step hstep rfl

/-! ## A turn for a consumer that waits -/

/-- Nothing is queued or runs. -/
def State.idle (s : State) : Prop :=
  ∀ index, (s.analysis index).active = false ∧ (s.conversion index).active = false

theorem Unfailed.analysis_cases (h : Unfailed s) (hidle : s.idle) (index : Nat) :
    s.analysis index = .unsubmitted ∨ s.analysis index = .finished true := by
  have hclean := h.analysis index
  have hinactive := (hidle index).1
  cases htask : s.analysis index with
  | finished success => cases success <;> simp_all [Task.clean]
  | unsubmitted => exact .inl rfl
  | queued | running | leaving | cancelled => simp_all [Task.clean, Task.active]

theorem Unfailed.conversion_cases (h : Unfailed s) (hidle : s.idle) (index : Nat) :
    s.conversion index = .unsubmitted ∨ s.conversion index = .finished true := by
  have hclean := h.conversion index
  have hinactive := (hidle index).2
  cases htask : s.conversion index with
  | finished success => cases success <;> simp_all [Task.clean]
  | unsubmitted => exact .inl rfl
  | queued | running | leaving | cancelled => simp_all [Task.clean, Task.active]

/-- A batch that is neither converted nor being converted is still before its conversion. -/
theorem Unfailed.nextConversion_eq (h : Unfailed s) (hcounted : Counted settings s)
    (hsubmitted : Submitted s) (hidle : s.idle) {index : Nat}
    (hconsumer : s.consumer = .expecting index) (hnot : s.conversion index ≠ .finished true) :
    s.released = index ∧ s.nextConversion = index := by
  have hindex := hcounted.expecting index hconsumer
  have hreleased := hcounted.released_le
  have hunsubmitted := (h.conversion_cases hidle index).resolve_right hnot
  have hle := (hsubmitted.conversion_iff index).mp hunsubmitted
  omega

/-- When the coordinator has collected what is done, the batch that the consumer
waits for is ready for its conversion, or there is room for its analysis. -/
theorem mayConvert_or_maySchedule (h : Reachable settings s) (hunfailed : Unfailed s)
    (hidle : s.idle) {index : Nat} (hlt : index < settings.configurations)
    (hconsumer : s.consumer = .expecting index) (hnot : s.conversion index ≠ .finished true)
    (hcollected : s.analysisFutures = ∅) : s.mayConvert settings ∨ s.maySchedule settings := by
  have hcounted := h.invariant.counted
  have hsubmitted := h.invariant.submitted
  obtain ⟨hreleased, hnext⟩ := hunfailed.nextConversion_eq hcounted hsubmitted hidle hconsumer hnot
  by_cases hscheduled : index < s.nextConfiguration
  · left
    have hpending : index ∈ s.pendingRegistries := by
      have hclean := hunfailed.analysis index
      rcases hsubmitted.listed index (Nat.le_of_eq hnext) hscheduled with
        hmem | hmem | hfailed | hcancelled
      · simp [hcollected] at hmem
      · exact hmem
      · simp [hfailed, Task.clean] at hclean
      · simp [hcancelled, Task.clean] at hclean
    unfold State.mayConvert
    rw [hcounted.futures_eq, hreleased, hnext]
    simpa using ⟨hpending, Settings.domainBatches_pos⟩
  · right
    have hheld := hcounted.held_eq
    have hspool := settings.positive.2.1
    unfold State.maySchedule
    rw [hcollected]
    refine ⟨?_, Settings.workerCount_pos, ?_⟩ <;>
      have := hcounted.converted_le <;> omega

/-- The empty list of a turn that has collected everything. -/
theorem Unfailed.collect_eq_empty (h : Unfailed s) (hsubmitted : Submitted s)
    (hcounted : Counted settings s) (hidle : s.idle) : s.collect.analysisFutures = ∅ := by
  apply Finset.sdiff_eq_empty_iff_subset.mpr
  intro index hindex
  apply mem_completed.mpr
  refine ⟨hindex, ?_⟩
  rcases h.analysis_cases hidle index with hunsubmitted | hdone
  · have hle := (hsubmitted.analysis_iff index).mp hunsubmitted
    have hlt := hcounted.analysis_lt index hindex
    omega
  · rw [hdone]
    rfl

theorem advances_of_waiting (h : Reachable settings s) (hunfailed : Unfailed s) (hidle : s.idle)
    {index : Nat} (hlt : index < settings.configurations)
    (hconsumer : s.consumer = .expecting index) (hnot : s.conversion index ≠ .finished true)
    (hcoordinator : s.coordinator = .waiting) : Advances settings s := by
  have hstopped : s.stopped = false := by
    have hiff := h.halted.stopped_iff
    simpa [hconsumer, Consumer.stopping] using hiff
  let awake : State := { s with coordinator := .checking }
  have hwake : Coordinates settings s awake := .wake hcoordinator
  have hawake : Reachable settings awake := h.tail (.coordinator hwake)
  have hawakeUnfailed : Unfailed awake := { hunfailed with }
  let collected : State := { awake.collect with coordinator := .converting }
  have hcollect : Coordinates settings awake collected :=
    .collect rfl hstopped hawakeUnfailed.failures_eq
  have hcollected : Reachable settings collected := hawake.tail (.coordinator hcollect)
  have hcollectedUnfailed : Unfailed collected := { hunfailed with }
  have hempty : collected.analysisFutures = ∅ :=
    hunfailed.collect_eq_empty h.invariant.submitted h.invariant.counted hidle
  have hrun : ReflTransGen (Step settings) s collected :=
    .tail (.single (.coordinator hwake)) (.coordinator hcollect)
  by_cases hmay : collected.mayConvert settings
  · exact (advances_of_mayConvert hcollected hcollectedUnfailed rfl hmay).after hrun rfl
  · have hmaySchedule := (mayConvert_or_maySchedule hcollected hcollectedUnfailed hidle hlt
      hconsumer hnot hempty).resolve_left hmay
    let converted : State := { collected with coordinator := .scheduling }
    have hconverted : Coordinates settings collected converted := .converted rfl hmay
    have hnext : Unfailed converted := { hunfailed with }
    exact (advances_of_maySchedule (s := converted) (hcollected.tail (.coordinator hconverted))
      hnext rfl hmaySchedule).after (hrun.tail (.coordinator hconverted)) rfl

/-! ## The consumer -/

/-- A move of the generator alone brings the end nearer. -/
theorem advances_of_consumer (hunfailed : Unfailed s) {consumer : Consumer}
    (hstep : Step settings s next) (htasks : next.analysis = s.analysis ∧
      next.conversion = s.conversion ∧ next.failure = s.failure ∧ next.consumer = consumer)
    (hcomplete : consumer.complete ≠ some false)
    (hlt : consumer.remaining settings.configurations <
      s.consumer.remaining settings.configurations) : Advances settings s := by
  obtain ⟨hanalysis, hconversion, hfailure, rfl⟩ := htasks
  refine .of_step hstep ?_ ?_
  · exact
      { failure := hfailure.trans hunfailed.failure
        analysis := hanalysis ▸ hunfailed.analysis
        conversion := hconversion ▸ hunfailed.conversion
        consumer := hcomplete }
  · unfold State.remaining
    rw [hanalysis, hconversion]
    omega

/-- From a state where the generator can move it is enough that the turn has ended. -/
theorem advances_of_settles (h : Reachable settings s) (hunfailed : Unfailed s)
    (hmove : ∀ later, Reachable settings later → Unfailed later → later.unlocked →
      later.consumer = s.consumer → Advances settings later) : Advances settings s := by
  rcases settles h hunfailed with hadvances | ⟨later, hrun, hlater, hsame, hunlocked, hconsumer⟩
  · exact hadvances
  · exact (hmove later (h.trans hrun) hlater hunlocked hconsumer).after hrun hsame

theorem advances_of_yielding (h : Reachable settings s) (hunfailed : Unfailed s) {index : Nat}
    (hconsumer : s.consumer = .yielding index) : Advances settings s := by
  apply advances_of_settles h hunfailed
  intro later hreachable hlater hunlocked hsame
  have hyielding := hsame.trans hconsumer
  have hcounted := hreachable.invariant.counted
  have hlt := (hcounted.yielding index hyielding).2
  have hle := hcounted.converted_le.trans hcounted.scheduled_le
  refine advances_of_consumer hlater (.consumer (.resume hunlocked hyielding))
    ⟨rfl, rfl, rfl, rfl⟩ (by simp [Consumer.complete]) ?_
  rw [hyielding]
  simp only [Consumer.remaining]
  omega

theorem advances_of_expecting (h : Reachable settings s) (hunfailed : Unfailed s) {index : Nat}
    (hlt : index < settings.configurations) (hconsumer : s.consumer = .expecting index) :
    Advances settings s := by
  apply advances_of_settles h hunfailed
  intro later hreachable hlater hunlocked hsame
  have hexpecting := hsame.trans hconsumer
  have hcounted := hreachable.invariant.counted
  have hsubmitted := hreachable.invariant.submitted
  by_cases hidle : later.idle
  · by_cases hdone : later.conversion index = .finished true
    · have hmem : index ∈ later.conversionFutures := by
        rw [hcounted.futures_eq, Finset.mem_Ico]
        refine ⟨Nat.le_of_eq (hcounted.expecting index hexpecting).symm, ?_⟩
        by_contra hnot
        rw [(hsubmitted.conversion_iff index).mpr (Nat.not_lt.mp hnot)] at hdone
        cases hdone
      refine advances_of_consumer hlater
        (.consumer (.take hunlocked hexpecting hlt hlater.failure hmem hdone))
        ⟨rfl, rfl, rfl, rfl⟩ (by simp [Consumer.complete]) ?_
      rw [hexpecting]
      simp [Consumer.remaining]
    · rcases hunlocked with hwaiting | hreturned
      · exact advances_of_waiting hreachable hlater hidle hlt hexpecting hdone hwaiting
      · have hstopped : later.stopped ≠ true := by
          rw [ne_eq, hreachable.halted.stopped_iff]
          simp [hexpecting, Consumer.stopping]
        obtain ⟨hall, hanalyses, hpending⟩ := ((hreachable.halted.returned hreturned).resolve_left
          (by simp [hlater.failure])).resolve_left hstopped
        obtain ⟨-, hnext⟩ :=
          hlater.nextConversion_eq hcounted hsubmitted hidle hexpecting hdone
        have hclean := hlater.analysis index
        rcases hsubmitted.listed index (Nat.le_of_eq hnext) (hall ▸ hlt) with
          hmem | hmem | hfailed | hcancelled
        · simp [hanalyses] at hmem
        · simp [hpending] at hmem
        · simp [hfailed, Task.clean] at hclean
        · simp [hcancelled, Task.clean] at hclean
  · simp only [State.idle, not_forall] at hidle
    obtain ⟨other, hactive⟩ := hidle
    by_cases hanalysis : (later.analysis other).active = true
    · exact advances_of_analysis hreachable hlater hanalysis
    · have hconversion : (later.conversion other).active = true := by simp_all
      exact advances_of_conversion hreachable hlater hconversion

/-! ## The last block of the generator -/

/-- When every batch has been given back each call has succeeded or was never needed. -/
theorem tasks_of_complete (h : Reachable settings s) (hunfailed : Unfailed s)
    (hcomplete : s.consumer.complete ≠ none) (index : Nat) :
    (s.analysis index = .unsubmitted ∨ s.analysis index = .finished true) ∧
      (s.conversion index = .unsubmitted ∨ s.conversion index = .finished true) := by
  have hcounted := h.invariant.counted
  have hreleased : s.released = settings.configurations := by
    apply hcounted.complete
    have hnot := hunfailed.consumer
    cases hcase : s.consumer.complete with
    | none => exact absurd hcase hcomplete
    | some complete => cases complete <;> simp_all
  have hconverted := hcounted.released_le
  have hscheduled := hcounted.converted_le
  have hall := hcounted.scheduled_le
  by_cases hlt : index < s.released
  · exact ⟨.inr (h.invariant.submitted.analyzed index (by omega)),
      .inr (h.invariant.submitted.converted index hlt)⟩
  · exact ⟨.inl ((h.invariant.submitted.analysis_iff index).mpr (by omega)),
      .inl ((h.invariant.submitted.conversion_iff index).mpr (by omega))⟩

theorem advances_of_closing (h : Reachable settings s) (hunfailed : Unfailed s)
    (hconsumer : s.consumer = .closing true) : Advances settings s := by
  apply advances_of_settles h hunfailed
  intro later hreachable hlater hunlocked hsame
  have hclosing := hsame.trans hconsumer
  have htasks := tasks_of_complete hreachable hlater (by simp [hclosing, Consumer.complete])
  refine advances_of_consumer hlater (.consumer (.stop hunlocked hclosing))
    ⟨?_, ?_, rfl, rfl⟩ (by simp [Consumer.complete]) ?_
  · funext index
    rcases (htasks index).1 with htask | htask <;>
      simp [State.cancelFutures, htask, Task.cancel]
  · funext index
    rcases (htasks index).2 with htask | htask <;>
      simp [State.cancelFutures, htask, Task.cancel]
  · rw [hclosing]
    simp [Consumer.remaining]

theorem advances_of_joining (h : Reachable settings s) (hunfailed : Unfailed s)
    (hconsumer : s.consumer = .joining true) : Advances settings s := by
  apply advances_of_settles h hunfailed
  intro later hreachable hlater hunlocked hsame
  have hjoining := hsame.trans hconsumer
  have hjoin : ∀ final, Unfailed final → final.coordinator = .returned →
      final.consumer = .joining true → Advances settings final := by
    intro final hfinal hreturned hconsumer
    refine advances_of_consumer hfinal (.consumer (.join hconsumer hreturned))
      ⟨rfl, rfl, rfl, rfl⟩ (by simp [Consumer.complete]) ?_
    rw [hconsumer]
    simp [Consumer.remaining]
  rcases hunlocked with hwaiting | hreturned
  · have hstopped : later.stopped = true := by
      rw [hreachable.halted.stopped_iff, hjoining]
      rfl
    let awake : State := { later with coordinator := .checking }
    let halted : State := { awake with coordinator := .returned }
    have hrun : ReflTransGen (Step settings) later halted :=
      .tail (.single (.coordinator (.wake hwaiting))) (.coordinator (.halt rfl hstopped))
    exact (hjoin halted { hlater with } rfl hjoining).after hrun rfl
  · exact hjoin later hlater hreturned hjoining

theorem advances_of_draining (h : Reachable settings s) (hunfailed : Unfailed s)
    (hconsumer : s.consumer = .draining true) : Advances settings s := by
  have htasks := tasks_of_complete h hunfailed (by simp [hconsumer, Consumer.complete])
  have hidle : s.idle := by
    intro index
    constructor
    · rcases (htasks index).1 with htask | htask <;> simp [htask, Task.active]
    · rcases (htasks index).2 with htask | htask <;> simp [htask, Task.active]
  refine advances_of_consumer hunfailed (.consumer (.drain hconsumer hidle))
    ⟨rfl, rfl, rfl, rfl⟩ (by simp [Consumer.complete]) ?_
  rw [hconsumer]
  simp [Consumer.remaining]

theorem advances_of_releasing (h : Reachable settings s) (hunfailed : Unfailed s)
    (hconsumer : s.consumer = .releasing true) : Advances settings s := by
  have htasks := tasks_of_complete h hunfailed (by simp [hconsumer, Consumer.complete])
  have hcounted := h.invariant.counted
  have hclosed : ∀ index ∈ s.leftover, s.registry index ≠ .opened := by
    intro index _ hopened
    obtain ⟨hholds, hended⟩ := h.invariant.accounted.opened index hopened
    have hreleased := hcounted.complete (by simp [hconsumer, Consumer.complete])
    by_cases hlt : index < s.released
    · rw [h.invariant.submitted.converted index hlt] at hended
      cases hended
    · have hscheduled := hcounted.scheduled_le
      rw [(h.invariant.submitted.analysis_iff index).mpr (by omega)] at hholds
      cases hholds
  refine advances_of_consumer hunfailed (.consumer (.exit hconsumer hclosed))
    ⟨rfl, rfl, rfl, rfl⟩ (by simp [Consumer.complete]) ?_
  rw [hconsumer]
  simp [Consumer.remaining]

/-- Only the normal end has nothing left to do. -/
theorem advances (h : Reachable settings s) (hunfailed : Unfailed s)
    (hnot : s.consumer ≠ .exited true) : Advances settings s := by
  have hcomplete := hunfailed.consumer
  cases hconsumer : s.consumer with
  | expecting index =>
      by_cases hlt : index < settings.configurations
      · exact advances_of_expecting h hunfailed hlt hconsumer
      · have hcounted := h.invariant.counted
        have hindex := hcounted.expecting index hconsumer
        have hreleased := hcounted.released_le
        have hconverted := hcounted.converted_le
        have hscheduled := hcounted.scheduled_le
        have hlast : s.consumer = .expecting settings.configurations := by
          rw [hconsumer]
          congr 1
          omega
        refine advances_of_consumer hunfailed (.consumer (.complete true hlast))
          ⟨rfl, rfl, rfl, rfl⟩ (by simp [Consumer.complete]) ?_
        rw [hlast]
        simp [Consumer.remaining]
  | yielding index => exact advances_of_yielding h hunfailed hconsumer
  | closing complete =>
      cases complete with
      | true => exact advances_of_closing h hunfailed hconsumer
      | false => simp [hconsumer, Consumer.complete] at hcomplete
  | joining complete =>
      cases complete with
      | true => exact advances_of_joining h hunfailed hconsumer
      | false => simp [hconsumer, Consumer.complete] at hcomplete
  | draining complete =>
      cases complete with
      | true => exact advances_of_draining h hunfailed hconsumer
      | false => simp [hconsumer, Consumer.complete] at hcomplete
  | releasing complete =>
      cases complete with
      | true => exact advances_of_releasing h hunfailed hconsumer
      | false => simp [hconsumer, Consumer.complete] at hcomplete
  | exited complete =>
      cases complete with
      | true => exact absurd hconsumer hnot
      | false => simp [hconsumer, Consumer.complete] at hcomplete

/-- In every state that a run without failures can reach, for all limits, the
pipeline can still deliver every batch and end. -/
theorem completion_reachable (h : Reachable settings s) (hunfailed : Unfailed s) :
    ∃ final, ReflTransGen (Step settings) s final ∧ final.consumer = .exited true ∧
      final.yielded = List.range settings.configurations := by
  induction hremaining : s.remaining settings using Nat.strong_induction_on generalizing s with
  | _ remaining ih =>
      by_cases hexited : s.consumer = .exited true
      · exact ⟨s, .refl, hexited, h.invariant.yielded_of_complete hexited⟩
      · obtain ⟨later, hrun, hlater, hlt⟩ := advances h hunfailed hexited
        obtain ⟨final, hfinal, hend⟩ := ih _ (hremaining ▸ hlt) (h.trans hrun) hlater rfl
        exact ⟨final, hrun.trans hfinal, hend⟩

theorem narrow_completion : ∃ final, Reachable .narrow final ∧ final.yielded = [0, 1] := by
  have hinitial : Reachable .narrow (initial .narrow) := .refl
  obtain ⟨final, hfinal, -, hyielded⟩ := completion_reachable hinitial
    { failure := rfl
      analysis := fun _ => rfl
      conversion := fun _ => rfl
      consumer := by simp [initial, Consumer.complete] }
  exact ⟨final, hfinal, hyielded⟩

end CppContextEngine.Ingestion.AnalyzerPipeline
