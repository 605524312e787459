import CppContextEngine.Ingestion.AnalyzerPipeline
import Mathlib.Order.Interval.Finset.Nat

/-!
# Runs of the analyzer pipeline

The configurations pass through the pipeline in order: a prefix has been given
back, the next ones are with the converters, and the ones behind these are
analyzed or wait for it.  So the three limits hold in every state, and nothing
stays open when the generator has ended.
-/

namespace CppContextEngine.Ingestion.AnalyzerPipeline

open CppContextEngine.Foundation

variable {settings : Settings} {s next : State}

/-! ## Counters -/

/-- The batches that the consumer has and has not given back. -/
def Consumer.inHand : Consumer → Nat
  | .yielding _ => 1
  | _ => 0

/-- Whether the loop of the generator has ended, once it has been left. -/
def Consumer.complete : Consumer → Option Bool
  | .expecting _ | .yielding _ => none
  | .closing complete | .joining complete | .draining complete | .releasing complete
  | .exited complete => some complete

variable (settings) in
/-- Three counters cut the configurations into parts. -/
structure Counted (s : State) : Prop where
  released_le : s.released ≤ s.nextConversion
  converted_le : s.nextConversion ≤ s.nextConfiguration
  scheduled_le : s.nextConfiguration ≤ settings.configurations
  held_eq : s.heldRegistries + s.released = s.nextConfiguration
  held_le : s.heldRegistries ≤ settings.maxSpoolRegistries
  domain_le : s.nextConversion ≤ s.released + settings.domainBatches
  futures_eq : s.conversionFutures = Finset.Ico s.released s.nextConversion
  registries_eq : s.conversionRegistries = Finset.Ico s.released s.nextConversion
  analysis_lt : ∀ index ∈ s.analysisFutures, index < s.nextConfiguration
  pending_lt : ∀ index ∈ s.pendingRegistries, index < s.nextConfiguration
  expecting : ∀ index, s.consumer = .expecting index → index = s.released
  yielding : ∀ index, s.consumer = .yielding index → index = s.released ∧ index < s.nextConversion
  yielded_eq : s.yielded = List.range (s.released + s.consumer.inHand)
  complete : s.consumer.complete = some true → s.released = settings.configurations

theorem counted_initial : Counted settings (initial settings) where
  released_le := le_refl 0
  converted_le := le_refl 0
  scheduled_le := Nat.zero_le _
  held_eq := rfl
  held_le := Nat.zero_le _
  domain_le := Nat.zero_le _
  futures_eq := by simp [initial]
  registries_eq := by simp [initial]
  analysis_lt := by simp [initial]
  pending_lt := by simp [initial]
  expecting := by simp [initial]
  yielding := by simp [initial]
  yielded_eq := rfl
  complete := by simp [initial, Consumer.complete]

theorem mem_completed {index : Nat} :
    index ∈ s.completed ↔ index ∈ s.analysisFutures ∧ (s.analysis index).done = true := by
  simp [State.completed]

theorem Counted.collect (h : Counted settings s) : Counted settings s.collect :=
  { h with
    analysis_lt := fun index hindex => h.analysis_lt index (Finset.mem_sdiff.mp hindex).1
    pending_lt := by
      intro index hindex
      rcases Finset.mem_union.mp hindex with hindex | hindex
      · exact h.pending_lt index hindex
      · exact h.analysis_lt index (mem_completed.mp (Finset.mem_filter.mp hindex).1).1 }

theorem Counted.submitConversion (h : Counted settings s) (hmay : s.mayConvert settings) :
    Counted settings s.submitConversion := by
  have hnext := h.pending_lt _ hmay.1
  have hroom := hmay.2
  have hreleased := h.released_le
  rw [h.futures_eq, Nat.card_Ico] at hroom
  exact
    { h with
      released_le := by
        simp only [State.submitConversion, State.convert]
        omega
      converted_le := hnext
      domain_le := by
        simp only [State.submitConversion, State.convert]
        omega
      futures_eq := by
        simp only [State.submitConversion, State.convert, h.futures_eq]
        ext other
        simp only [Finset.mem_insert, Finset.mem_Ico]
        omega
      registries_eq := by
        simp only [State.submitConversion, State.convert, h.registries_eq]
        ext other
        simp only [Finset.mem_insert, Finset.mem_Ico]
        omega
      pending_lt := fun index hindex => h.pending_lt index (Finset.mem_of_mem_erase hindex)
      yielding := by
        intro index hconsumer
        obtain ⟨hindex, hlt⟩ := h.yielding index hconsumer
        exact ⟨hindex, Nat.lt_succ_of_lt hlt⟩ }

theorem Counted.submitAnalysis (h : Counted settings s) (hmay : s.maySchedule settings)
    (slot : Nat) : Counted settings (s.submitAnalysis settings slot) := by
  obtain ⟨hnext, -, hroom⟩ := hmay
  have hheld := h.held_eq
  exact
    { h with
      converted_le := Nat.le_succ_of_le h.converted_le
      scheduled_le := hnext
      held_eq := by
        simp only [State.submitAnalysis, State.updateState, State.analyze]
        omega
      held_le := hroom
      analysis_lt := by
        intro index hindex
        rcases Finset.mem_insert.mp hindex with rfl | hindex
        · exact Nat.lt_succ_self _
        · exact Nat.lt_succ_of_lt (h.analysis_lt index hindex)
      pending_lt := fun index hindex => Nat.lt_succ_of_lt (h.pending_lt index hindex) }

theorem Counted.giveBack (h : Counted settings s) {index : Nat}
    (hconsumer : s.consumer = .yielding index) {consumer : Consumer} (hhand : consumer.inHand = 0)
    (hexpecting : ∀ other, consumer = .expecting other → other = index + 1)
    (hcomplete : consumer.complete ≠ some true) :
    Counted settings { s.giveBack settings index with consumer } := by
  obtain ⟨rfl, hlt⟩ := h.yielding index hconsumer
  have hheld := h.held_eq
  have hle := h.converted_le
  exact
    { h with
      released_le := hlt
      held_eq := by
        simp only [State.giveBack, State.updateState]
        omega
      held_le := by
        have := h.held_le
        simp only [State.giveBack, State.updateState]
        omega
      domain_le := by
        have := h.domain_le
        simp only [State.giveBack, State.updateState]
        omega
      futures_eq := by
        simp only [State.giveBack, State.updateState, h.futures_eq]
        ext other
        simp only [Finset.mem_erase, Finset.mem_Ico]
        omega
      registries_eq := by
        simp only [State.giveBack, State.updateState, h.registries_eq]
        ext other
        simp only [Finset.mem_erase, Finset.mem_Ico]
        omega
      expecting := hexpecting
      yielding := by
        rintro other rfl
        cases hhand
      yielded_eq := by
        have hyielded := h.yielded_eq
        rw [hconsumer] at hyielded
        simp only [hhand]
        exact hyielded
      complete := fun h => absurd h hcomplete }

theorem counted_step (h : Counted settings s) (hstep : Step settings s next) :
    Counted settings next := by
  cases hstep with
  | coordinator hstep =>
      cases hstep with
      | wake | halt | refuse | converted | scheduled | finish | pause | breakdown => exact { h with }
      | fail => exact { h.collect with }
      | collect => exact { h.collect with }
      | convert _ hmay => exact h.submitConversion hmay
      | schedule _ hmay => exact h.submitAnalysis hmay _
  | consumer hstep =>
      cases hstep with
      | @take index _ hconsumer _ _ hfuture =>
          have hindex := h.expecting index hconsumer
          rw [h.futures_eq, Finset.mem_Ico] at hfuture
          have hyielded := h.yielded_eq
          rw [hconsumer] at hyielded
          exact
            { h with
              expecting := by simp
              yielding := by
                rintro other ⟨⟩
                exact ⟨hindex, hfuture.2⟩
              yielded_eq := by
                simp only [hyielded, Consumer.inHand, hindex]
                rw [List.range_succ]
                rfl
              complete := by simp [Consumer.complete] }
      | raise _ hconsumer =>
          have hyielded := h.yielded_eq
          rw [hconsumer] at hyielded
          exact { h with
            expecting := by simp
            yielding := by simp
            yielded_eq := hyielded
            complete := by simp [Consumer.complete] }
      | resume _ hconsumer =>
          exact h.giveBack hconsumer rfl (by simp) (by simp [Consumer.complete])
      | abandon _ hconsumer =>
          exact h.giveBack hconsumer rfl (by simp) (by simp [Consumer.complete])
      | complete same hconsumer =>
          have hindex := h.expecting _ hconsumer
          have hyielded := h.yielded_eq
          rw [hconsumer] at hyielded
          exact { h with
            expecting := by simp
            yielding := by simp
            yielded_eq := hyielded
            complete := fun _ => hindex.symm }
      | stop _ hconsumer | join hconsumer | drain hconsumer | exit hconsumer =>
          have hyielded := h.yielded_eq
          have hcomplete := h.complete
          rw [hconsumer] at hyielded hcomplete
          exact { h with
            expecting := by simp
            yielding := by simp
            yielded_eq := hyielded
            complete := hcomplete }
      | close => exact { h with }
  | worker hstep => cases hstep <;> exact { h with }

/-! ## Futures -/

@[simp] theorem cancel_eq_finished {task : Task} {success : Bool} :
    task.cancel = .finished success ↔ task = .finished success := by
  cases task <;> simp [Task.cancel]

@[simp] theorem cancel_eq_unsubmitted {task : Task} :
    task.cancel = .unsubmitted ↔ task = .unsubmitted := by
  cases task <;> simp [Task.cancel]

/-- What the two futures of each configuration say, by the part that it is in. -/
structure Submitted (s : State) : Prop where
  analysis_iff : ∀ index, s.analysis index = .unsubmitted ↔ s.nextConfiguration ≤ index
  conversion_iff : ∀ index, s.conversion index = .unsubmitted ↔ s.nextConversion ≤ index
  analyzed : ∀ index < s.nextConversion, s.analysis index = .finished true
  pending : ∀ index ∈ s.pendingRegistries, s.nextConversion ≤ index ∧
    index ∉ s.analysisFutures ∧ s.analysis index = .finished true
  listed : ∀ index, s.nextConversion ≤ index → index < s.nextConfiguration →
    index ∈ s.analysisFutures ∨ index ∈ s.pendingRegistries ∨
      s.analysis index = .finished false ∨ s.analysis index = .cancelled
  futures_ge : ∀ index ∈ s.analysisFutures, s.nextConversion ≤ index
  converted : ∀ index < s.released, s.conversion index = .finished true
  inHand : ∀ index, s.consumer = .yielding index → s.conversion index = .finished true

theorem submitted_initial : Submitted (initial settings) where
  analysis_iff := by simp [initial]
  conversion_iff := by simp [initial]
  analyzed := by simp [initial]
  pending := by simp [initial]
  listed := by simp [initial]
  futures_ge := by simp [initial]
  converted := by simp [initial]
  inHand := by simp [initial]

/-- A future that is not done is listed. -/
theorem Submitted.mem_futures (h : Submitted s) {index : Nat}
    (hactive : (s.analysis index).active = true) : index ∈ s.analysisFutures := by
  have hlt : index < s.nextConfiguration := by
    by_contra hnot
    rw [(h.analysis_iff index).mpr (Nat.not_lt.mp hnot)] at hactive
    cases hactive
  have hge : s.nextConversion ≤ index := by
    by_contra hnot
    rw [h.analyzed index (Nat.not_le.mp hnot)] at hactive
    cases hactive
  rcases h.listed index hge hlt with hmem | hmem | hfailed | hcancelled
  · exact hmem
  · rw [(h.pending index hmem).2.2] at hactive
    cases hactive
  · rw [hfailed] at hactive
    cases hactive
  · rw [hcancelled] at hactive
    cases hactive

theorem Submitted.analyze (h : Submitted s) {index : Nat} {task : Task}
    (hactive : (s.analysis index).active = true) (htask : task ≠ .unsubmitted) :
    Submitted (s.analyze index task) := by
  have hmem := h.mem_futures hactive
  exact
    { h with
      analysis_iff := by
        intro other
        by_cases hsame : other = index
        · subst hsame
          have hnot : s.analysis other ≠ .unsubmitted := by
            intro heq
            rw [heq] at hactive
            cases hactive
          simp [State.analyze, htask, (h.analysis_iff other).not.mp hnot]
        · simp [State.analyze, hsame, h.analysis_iff other]
      analyzed := by
        intro other hlt
        have hne : other ≠ index := by
          rintro rfl
          have := h.futures_ge other hmem
          simp only [State.analyze] at hlt
          omega
        simp [State.analyze, hne, h.analyzed other hlt]
      pending := by
        intro other hother
        obtain ⟨hge, hnot, hdone⟩ := h.pending other hother
        have hne : other ≠ index := fun heq => hnot (heq ▸ hmem)
        refine ⟨hge, hnot, ?_⟩
        simp [State.analyze, hne, hdone]
      listed := by
        intro other hge hlt
        by_cases hsame : other = index
        · exact .inl (hsame ▸ hmem)
        · simpa [State.analyze, hsame] using h.listed other hge hlt }

theorem Submitted.convert (h : Submitted s) {index : Nat} {task : Task}
    (hactive : (s.conversion index).active = true) (htask : task ≠ .unsubmitted) :
    Submitted (s.convert index task) := by
  have hnot : ∀ success, s.conversion index ≠ .finished success := by
    intro success heq
    rw [heq] at hactive
    cases hactive
  exact
    { h with
      conversion_iff := by
        intro other
        by_cases hsame : other = index
        · subst hsame
          have hsubmitted : s.conversion other ≠ .unsubmitted := by
            intro heq
            rw [heq] at hactive
            cases hactive
          simp [State.convert, htask, (h.conversion_iff other).not.mp hsubmitted]
        · simp [State.convert, hsame, h.conversion_iff other]
      converted := by
        intro other hlt
        have hdone := h.converted other hlt
        have hne : other ≠ index := fun heq => hnot true (heq ▸ hdone)
        simp [State.convert, hne, hdone]
      inHand := by
        intro other hconsumer
        have hdone := h.inHand other hconsumer
        have hne : other ≠ index := fun heq => hnot true (heq ▸ hdone)
        simp [State.convert, hne, hdone] }

theorem Submitted.cancelFutures (h : Submitted s) : Submitted s.cancelFutures :=
  { h with
    analysis_iff := by
      intro index
      by_cases hmem : index ∈ s.analysisFutures <;>
        simp [State.cancelFutures, hmem, h.analysis_iff index]
    conversion_iff := by
      intro index
      by_cases hmem : index ∈ s.conversionFutures <;>
        simp [State.cancelFutures, hmem, h.conversion_iff index]
    analyzed := by
      intro index hlt
      by_cases hmem : index ∈ s.analysisFutures <;>
        simp [State.cancelFutures, hmem, h.analyzed index hlt]
    pending := by
      intro index hindex
      obtain ⟨hge, hnot, hdone⟩ := h.pending index hindex
      exact ⟨hge, hnot, by simp [State.cancelFutures, hnot, hdone]⟩
    listed := by
      intro index hge hlt
      by_cases hmem : index ∈ s.analysisFutures
      · exact .inl hmem
      · simpa [State.cancelFutures, hmem] using h.listed index hge hlt
    converted := by
      intro index hlt
      by_cases hmem : index ∈ s.conversionFutures <;>
        simp [State.cancelFutures, hmem, h.converted index hlt]
    inHand := by
      intro index hconsumer
      by_cases hmem : index ∈ s.conversionFutures <;>
        simp [State.cancelFutures, hmem, h.inHand index hconsumer] }

theorem Submitted.collect (h : Submitted s) : Submitted s.collect :=
  { h with
    pending := by
      intro index hindex
      rcases Finset.mem_union.mp hindex with hindex | hindex
      · obtain ⟨hge, hnot, hdone⟩ := h.pending index hindex
        exact ⟨hge, fun hmem => hnot (Finset.mem_sdiff.mp hmem).1, hdone⟩
      · obtain ⟨hcompleted, hdone⟩ := Finset.mem_filter.mp hindex
        exact ⟨h.futures_ge index (mem_completed.mp hcompleted).1,
          fun hmem => (Finset.mem_sdiff.mp hmem).2 hcompleted, hdone⟩
    listed := by
      intro index hge hlt
      rcases h.listed index hge hlt with hmem | hmem | hrest
      · by_cases hdone : (s.analysis index).done = true
        · have hcompleted := mem_completed.mpr ⟨hmem, hdone⟩
          right
          cases htask : s.analysis index with
          | finished success =>
              cases success with
              | true => exact .inl (Finset.mem_union_right _ (Finset.mem_filter.mpr
                  ⟨hcompleted, htask⟩))
              | false => exact .inr (.inl htask)
          | cancelled => exact .inr (.inr htask)
          | unsubmitted | queued | running | leaving => simp [htask, Task.done] at hdone
        · exact .inl (Finset.mem_sdiff.mpr ⟨hmem, fun hcompleted =>
            hdone (mem_completed.mp hcompleted).2⟩)
      · exact .inr (.inl (Finset.mem_union_left _ hmem))
      · exact .inr (.inr hrest)
    futures_ge := fun index hindex => h.futures_ge index (Finset.mem_sdiff.mp hindex).1 }

theorem Submitted.submitConversion (h : Submitted s) (hcounted : Counted settings s)
    (hmay : s.mayConvert settings) : Submitted s.submitConversion := by
  obtain ⟨-, hunlisted, hdone⟩ := h.pending _ hmay.1
  have hlast : ∀ index, index < s.nextConversion → index ≠ s.nextConversion :=
    fun _ => Nat.ne_of_lt
  exact
    { h with
      conversion_iff := by
        intro index
        by_cases hsame : index = s.nextConversion
        · simp [State.submitConversion, State.convert, hsame]
        · simp only [State.submitConversion, State.convert, Function.update_of_ne hsame,
            h.conversion_iff index]
          omega
      analyzed := by
        intro index hlt
        rcases Nat.lt_succ_iff_lt_or_eq.mp hlt with hlt | rfl
        · exact h.analyzed index hlt
        · exact hdone
      pending := by
        intro index hindex
        obtain ⟨hne, hindex⟩ := Finset.mem_erase.mp hindex
        obtain ⟨hge, hrest⟩ := h.pending index hindex
        exact ⟨Nat.lt_of_le_of_ne hge (Ne.symm hne), hrest⟩
      listed := by
        intro index hge hlt
        rcases h.listed index (Nat.le_of_succ_le hge) hlt with hmem | hmem | hrest
        · exact .inl hmem
        · refine .inr (.inl (Finset.mem_erase.mpr ⟨?_, hmem⟩))
          rintro rfl
          exact Nat.not_succ_le_self _ hge
        · exact .inr (.inr hrest)
      futures_ge := by
        intro index hindex
        refine Nat.lt_of_le_of_ne (h.futures_ge index hindex) ?_
        rintro rfl
        exact hunlisted hindex
      converted := by
        intro index hlt
        have hne := hlast index (Nat.lt_of_lt_of_le hlt hcounted.released_le)
        simp [State.submitConversion, State.convert, hne, h.converted index hlt]
      inHand := by
        intro index hconsumer
        have hne := hlast index (hcounted.yielding index hconsumer).2
        simp [State.submitConversion, State.convert, hne, h.inHand index hconsumer] }

theorem Submitted.submitAnalysis (h : Submitted s) (hcounted : Counted settings s) (slot : Nat) :
    Submitted (s.submitAnalysis settings slot) := by
  have hne : ∀ index, index < s.nextConfiguration → index ≠ s.nextConfiguration :=
    fun _ => Nat.ne_of_lt
  exact
    { h with
      analysis_iff := by
        intro index
        by_cases hsame : index = s.nextConfiguration
        · simp [State.submitAnalysis, State.analyze, State.updateState, hsame]
        · simp only [State.submitAnalysis, State.analyze, State.updateState,
            Function.update_of_ne hsame, h.analysis_iff index]
          omega
      analyzed := by
        intro index hlt
        have hindex := hne index (Nat.lt_of_lt_of_le hlt hcounted.converted_le)
        simp [State.submitAnalysis, State.analyze, State.updateState, hindex, h.analyzed index hlt]
      pending := by
        intro index hindex
        obtain ⟨hge, hnot, hdone⟩ := h.pending index hindex
        have hindex := hne index (hcounted.pending_lt index hindex)
        refine ⟨hge, ?_, ?_⟩
        · simp [State.submitAnalysis, hindex, hnot]
        · simp [State.submitAnalysis, State.analyze, State.updateState, hindex, hdone]
      listed := by
        intro index hge hlt
        rcases Nat.lt_succ_iff_lt_or_eq.mp hlt with hlt | rfl
        · have hindex := hne index hlt
          simpa [State.submitAnalysis, State.analyze, State.updateState, hindex] using
            h.listed index hge hlt
        · exact .inl (Finset.mem_insert_self _ _)
      futures_ge := by
        intro index hindex
        rcases Finset.mem_insert.mp hindex with rfl | hindex
        · exact hcounted.converted_le
        · exact h.futures_ge index hindex }

theorem Submitted.giveBack (h : Submitted s) (hcounted : Counted settings s) {index : Nat}
    (hconsumer : s.consumer = .yielding index) {consumer : Consumer} (hhand : consumer.inHand = 0) :
    Submitted { s.giveBack settings index with consumer } :=
  { h with
    converted := by
      intro other hlt
      rcases Nat.lt_succ_iff_lt_or_eq.mp hlt with hlt | rfl
      · exact h.converted other hlt
      · rw [← (hcounted.yielding index hconsumer).1]
        exact h.inHand index hconsumer
    inHand := by
      rintro other rfl
      cases hhand }

theorem submitted_step (h : Submitted s) (hcounted : Counted settings s)
    (hstep : Step settings s next) : Submitted next := by
  cases hstep with
  | coordinator hstep =>
      cases hstep with
      | wake | halt | converted | scheduled | finish | pause | breakdown => exact { h with }
      | refuse => exact { h.cancelFutures with }
      | fail => exact { h.collect.cancelFutures with }
      | collect => exact { h.collect with }
      | convert _ hmay => exact h.submitConversion hcounted hmay
      | schedule => exact h.submitAnalysis hcounted _
  | consumer hstep =>
      cases hstep with
      | @take index _ _ _ _ _ hdone =>
          exact { h with
            inHand := by
              rintro other ⟨⟩
              exact hdone }
      | raise | complete | join | drain | exit => exact { h with inHand := by simp }
      | stop => exact { h.cancelFutures with inHand := by simp }
      | resume _ hconsumer => exact h.giveBack hcounted hconsumer rfl
      | abandon _ hconsumer => exact h.giveBack hcounted hconsumer rfl
      | close => exact { h with }
  | worker hstep =>
      cases hstep with
      | openFile | write => exact { h with }
      | beginAnalysis htask | analyzed htask | notAnalyzed htask | endAnalysis htask =>
          exact { h.analyze (by rw [htask]; rfl) (by simp) with }
      | beginConversion htask | converted htask | endConversion htask =>
          exact { h.convert (by rw [htask]; rfl) (by simp) with }

/-! ## Slots -/

theorem Settings.workerCount_pos : 0 < settings.workerCount := by
  have hpositive := settings.positive
  unfold Settings.workerCount
  omega

variable (settings) in
/-- Every listed analysis has a slot of its own, and the other slots are available. -/
structure Slotted (s : State) : Prop where
  injective : Set.InjOn s.slotOf s.analysisFutures
  below : ∀ index ∈ s.analysisFutures, s.slotOf index < settings.workerCount
  available : ∀ slot, slot ∈ s.availableSlots ↔
    slot < settings.workerCount ∧ ∀ index ∈ s.analysisFutures, s.slotOf index ≠ slot

theorem slotted_initial : Slotted settings (initial settings) where
  injective := by simp [initial]
  below := by simp [initial]
  available := by simp [initial]

theorem Slotted.image_subset (h : Slotted settings s) :
    s.analysisFutures.image s.slotOf ⊆ Finset.range settings.workerCount := by
  intro slot hslot
  obtain ⟨index, hindex, rfl⟩ := Finset.mem_image.mp hslot
  exact Finset.mem_range.mpr (h.below index hindex)

theorem Slotted.card_le (h : Slotted settings s) :
    s.analysisFutures.card ≤ settings.workerCount := by
  rw [← Finset.card_image_of_injOn h.injective, ← Finset.card_range settings.workerCount]
  exact Finset.card_le_card h.image_subset

/-- When there is room for an analysis there is a slot for it. -/
theorem Slotted.exists_slot (h : Slotted settings s)
    (hroom : s.analysisFutures.card < settings.workerCount) :
    ∃ slot ∈ s.availableSlots, ∀ other ∈ s.availableSlots, slot ≤ other := by
  have hcard : (s.analysisFutures.image s.slotOf).card <
      (Finset.range settings.workerCount).card := by
    rw [Finset.card_image_of_injOn h.injective, Finset.card_range]
    exact hroom
  obtain ⟨slot, hslot, hnot⟩ := Finset.exists_mem_notMem_of_card_lt_card hcard
  have hnonempty : s.availableSlots.Nonempty := by
    refine ⟨slot, (h.available slot).mpr ⟨Finset.mem_range.mp hslot, ?_⟩⟩
    intro index hindex heq
    exact hnot (Finset.mem_image.mpr ⟨index, hindex, heq⟩)
  exact ⟨_, Finset.min'_mem _ hnonempty, fun other hother => Finset.min'_le _ other hother⟩

theorem Slotted.collect (h : Slotted settings s) : Slotted settings s.collect where
  injective := h.injective.mono (Finset.coe_subset.mpr Finset.sdiff_subset)
  below index hindex := h.below index (Finset.mem_sdiff.mp hindex).1
  available := by
    intro slot
    simp only [State.collect, Finset.mem_union, Finset.mem_image, h.available slot,
      Finset.mem_sdiff]
    constructor
    · rintro (⟨hlt, hfree⟩ | ⟨index, hindex, rfl⟩)
      · exact ⟨hlt, fun index hindex => hfree index hindex.1⟩
      · have hmem := (mem_completed.mp hindex).1
        refine ⟨h.below index hmem, ?_⟩
        rintro other ⟨hother, hnot⟩ heq
        exact hnot (h.injective hother hmem heq ▸ hindex)
    · rintro ⟨hlt, hfree⟩
      by_cases htaken : ∃ index ∈ s.completed, s.slotOf index = slot
      · exact .inr htaken
      · refine .inl ⟨hlt, fun index hindex heq => ?_⟩
        by_cases hdone : index ∈ s.completed
        · exact htaken ⟨index, hdone, heq⟩
        · exact hfree index ⟨hindex, hdone⟩ heq

theorem Slotted.submitAnalysis (h : Slotted settings s) (hcounted : Counted settings s)
    {slot : Nat} (hslot : slot ∈ s.availableSlots) :
    Slotted settings (s.submitAnalysis settings slot) := by
  obtain ⟨hlt, hfree⟩ := (h.available slot).mp hslot
  have hslots : ∀ index ∈ s.analysisFutures,
      Function.update s.slotOf s.nextConfiguration slot index = s.slotOf index := by
    intro index hindex
    rw [Function.update_of_ne (Nat.ne_of_lt (hcounted.analysis_lt index hindex))]
  have hlast : Function.update s.slotOf s.nextConfiguration slot s.nextConfiguration = slot := by
    simp
  exact
    { injective := by
        intro index hindex other hother heq
        simp only [State.submitAnalysis, Finset.coe_insert, Set.mem_insert_iff,
          Finset.mem_coe] at hindex hother heq
        rcases hindex with rfl | hindex <;> rcases hother with rfl | hother
        · rfl
        · rw [hlast, hslots other hother] at heq
          exact absurd heq.symm (hfree other hother)
        · rw [hlast, hslots index hindex] at heq
          exact absurd heq (hfree index hindex)
        · rw [hslots index hindex, hslots other hother] at heq
          exact h.injective hindex hother heq
      below := by
        intro index hindex
        rcases Finset.mem_insert.mp hindex with rfl | hindex
        · simpa [State.submitAnalysis] using hlt
        · simpa [State.submitAnalysis, hslots index hindex] using h.below index hindex
      available := by
        intro other
        simp only [State.submitAnalysis, State.analyze, State.updateState, Finset.mem_erase,
          Finset.forall_mem_insert, hlast, h.available other]
        constructor
        · rintro ⟨hne, hother, hrest⟩
          refine ⟨hother, hne.symm, fun index hindex => ?_⟩
          rw [hslots index hindex]
          exact hrest index hindex
        · rintro ⟨hother, hne, hrest⟩
          refine ⟨hne.symm, hother, fun index hindex => ?_⟩
          rw [← hslots index hindex]
          exact hrest index hindex }

theorem slotted_step (h : Slotted settings s) (hcounted : Counted settings s)
    (hstep : Step settings s next) : Slotted settings next := by
  cases hstep with
  | coordinator hstep =>
      cases hstep with
      | wake | halt | refuse | convert | converted | scheduled | finish | pause | breakdown =>
          exact { h with }
      | fail => exact { h.collect with }
      | collect => exact { h.collect with }
      | schedule _ _ hslot => exact h.submitAnalysis hcounted hslot
  | consumer hstep => cases hstep <;> exact { h with }
  | worker hstep => cases hstep <;> exact { h with }

end CppContextEngine.Ingestion.AnalyzerPipeline
