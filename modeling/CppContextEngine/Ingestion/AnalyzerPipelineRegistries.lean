import CppContextEngine.Ingestion.AnalyzerPipelineRuns

/-!
# Registries of the analyzer pipeline

A registry is open from its analysis to the end of its conversion.  Every way out
of the generator closes what is left, so the two budgets are free again.
-/

namespace CppContextEngine.Ingestion.AnalyzerPipeline

open CppContextEngine.Foundation

variable {settings : Settings} {s next : State}

/-! ## Registries -/

/-- The registry of an analysis is open. -/
def Task.holds : Task → Bool
  | running | leaving true | finished true => true
  | _ => false

/-- The registry of a conversion is closed. -/
def Task.ended : Task → Bool
  | leaving _ | finished _ => true
  | _ => false

variable (settings) in
/-- Only open registries have files and bytes, and the budgets count them. -/
structure Accounted (s : State) : Prop where
  opened : ∀ index, s.registry index = .opened →
    (s.analysis index).holds = true ∧ (s.conversion index).ended = false
  running : ∀ index, s.analysis index = .running → s.registry index = .opened
  files : s.files.Balanced (Finset.range settings.configurations)
  bytes : s.bytes.Balanced (Finset.range settings.configurations)
  limits : s.files.limit = settings.maxSpoolFds ∧ s.bytes.limit = settings.maxSpoolBytes
  unopened : ∀ index, s.registry index ≠ .opened →
    s.files.held index = 0 ∧ s.bytes.held index = 0

theorem accounted_initial : Accounted settings (initial settings) where
  opened := by simp [initial]
  running := by simp [initial]
  files := SharedBudget.balanced_fresh _ _
  bytes := SharedBudget.balanced_fresh _ _
  limits := ⟨rfl, rfl⟩
  unopened _ _ := ⟨rfl, rfl⟩

/-- The registry of an analysis that has ended, or ends with it, is closed. -/
theorem Accounted.closeAnalysis (h : Accounted settings s) {index : Nat} {task : Task}
    (htask : task ≠ .running) : Accounted settings ((s.close index).analyze index task) where
  opened := by
    intro other hother
    by_cases hsame : other = index
    · simp [State.close, State.analyze, hsame] at hother
    · simpa [State.close, State.analyze, hsame] using
        h.opened other (by simpa [State.close, State.analyze, hsame] using hother)
  running := by
    intro other hother
    have hne : other ≠ index := by
      rintro rfl
      simp [State.analyze, htask] at hother
    simpa [State.close, State.analyze, hne] using
      h.running other (by simpa [State.close, State.analyze, hne] using hother)
  files := h.files.release index
  bytes := h.bytes.release index
  limits := h.limits
  unopened := by
    intro other hother
    by_cases hsame : other = index
    · simp [State.close, State.analyze, SharedBudget.release, hsame]
    · simpa [State.close, State.analyze, SharedBudget.release, hsame] using
        h.unopened other (by simpa [State.close, State.analyze, hsame] using hother)

theorem Accounted.close (h : Accounted settings s) {index : Nat}
    (hrunning : s.analysis index ≠ .running) : Accounted settings (s.close index) := by
  have hclosed : Accounted settings ((s.close index).analyze index (s.analysis index)) :=
    h.closeAnalysis hrunning
  have hsame : (s.close index).analyze index (s.analysis index) = s.close index := by
    simp [State.close, State.analyze]
  rwa [hsame] at hclosed

/-- A future moves on while its registry stays as it is. -/
theorem Accounted.analyze (h : Accounted settings s) {index : Nat} {task : Task}
    (hholds : s.registry index = .opened → task.holds = true) (htask : task ≠ .running) :
    Accounted settings (s.analyze index task) :=
  { h with
    opened := by
      intro other hother
      by_cases hsame : other = index
      · subst hsame
        simpa [State.analyze, hholds hother] using (h.opened other hother).2
      · simpa [State.analyze, hsame] using h.opened other hother
    running := by
      intro other hother
      have hne : other ≠ index := by
        rintro rfl
        simp [State.analyze, htask] at hother
      exact h.running other (by simpa [State.analyze, hne] using hother) }

theorem Accounted.convert (h : Accounted settings s) {index : Nat} {task : Task}
    (hended : s.registry index = .opened → task.ended = false) :
    Accounted settings (s.convert index task) :=
  { h with
    opened := by
      intro other hother
      by_cases hsame : other = index
      · subst hsame
        simpa [State.convert, hended hother] using (h.opened other hother).1
      · simpa [State.convert, hsame] using h.opened other hother }

theorem Accounted.cancelFutures (h : Accounted settings s) :
    Accounted settings s.cancelFutures := by
  have hcancel : ∀ task : Task, task.cancel.holds = task.holds ∧ task.cancel.ended = task.ended ∧
      (task.cancel = .running ↔ task = .running) := by
    intro task
    cases task <;> simp [Task.cancel, Task.holds, Task.ended]
  exact
    { h with
      opened := by
        intro index hindex
        have := h.opened index hindex
        constructor
        · by_cases hmem : index ∈ s.analysisFutures <;>
            simpa [State.cancelFutures, hmem, hcancel] using this.1
        · by_cases hmem : index ∈ s.conversionFutures <;>
            simpa [State.cancelFutures, hmem, hcancel] using this.2
      running := by
        intro index hindex
        by_cases hmem : index ∈ s.analysisFutures
        · exact h.running index ((hcancel _).2.2.mp (by
            simpa [State.cancelFutures, hmem] using hindex))
        · exact h.running index (by simpa [State.cancelFutures, hmem] using hindex) }

theorem Accounted.submitAnalysis (h : Accounted settings s) (hsubmitted : Submitted s)
    (slot : Nat) : Accounted settings (s.submitAnalysis settings slot) := by
  have hnew := (hsubmitted.analysis_iff s.nextConfiguration).mpr le_rfl
  have hclosed : s.registry s.nextConfiguration ≠ .opened := by
    intro hopened
    have := (h.opened _ hopened).1
    rw [hnew] at this
    cases this
  have hanalyzed : Accounted settings (s.analyze s.nextConfiguration .queued) :=
    h.analyze (fun hopened => absurd hopened hclosed) (by simp)
  exact { hanalyzed with }

theorem Accounted.submitConversion (h : Accounted settings s) :
    Accounted settings s.submitConversion := by
  have hconverted : Accounted settings (s.convert s.nextConversion .queued) :=
    h.convert fun _ => rfl
  exact { hconverted with }

theorem Accounted.beginAnalysis (h : Accounted settings s) (hsubmitted : Submitted s)
    {index : Nat} (htask : s.analysis index = .queued) (occasion : Occasion) :
    Accounted settings { (s.report occasion).analyze index .running with
      registry := Function.update s.registry index .opened } := by
  have hbehind : s.nextConversion ≤ index := by
    by_contra hnot
    rw [hsubmitted.analyzed index (Nat.not_le.mp hnot)] at htask
    cases htask
  have hunsubmitted := (hsubmitted.conversion_iff index).mpr hbehind
  exact
    { h with
      opened := by
        intro other hother
        by_cases hsame : other = index
        · subst hsame
          simp [State.analyze, State.report, hunsubmitted, Task.holds, Task.ended]
        · simpa [State.analyze, State.report, hsame] using
            h.opened other (by simpa [hsame] using hother)
      running := by
        intro other hother
        by_cases hsame : other = index
        · simp [hsame]
        · simpa [hsame] using
            h.running other (by simpa [State.analyze, State.report, hsame] using hother)
      unopened := by
        intro other hother
        have hne : other ≠ index := by
          rintro rfl
          simp at hother
        exact h.unopened other (by simpa [hne] using hother) }

/-- A registry that is to be closed belongs to an analysis that has succeeded. -/
theorem Submitted.leftover (h : Submitted s) (hcounted : Counted settings s) {index : Nat}
    (hindex : index ∈ s.leftover) : s.analysis index = .finished true := by
  simp only [State.leftover, Finset.mem_union, Finset.mem_filter] at hindex
  rcases hindex with (hindex | hindex) | hindex
  · exact (h.pending index hindex).2.2
  · rw [hcounted.registries_eq, Finset.mem_Ico] at hindex
    exact h.analyzed index hindex.2
  · exact hindex.2

theorem Counted.lt_of_active (hcounted : Counted settings s) (hsubmitted : Submitted s)
    {index : Nat} (hactive : (s.analysis index).active = true) :
    index < settings.configurations :=
  Nat.lt_of_lt_of_le (hcounted.analysis_lt index (hsubmitted.mem_futures hactive))
    hcounted.scheduled_le

theorem Accounted.openFile (h : Accounted settings s) {index : Nat}
    (hlt : index < settings.configurations) (htask : s.analysis index = .running)
    {files : SharedBudget Nat} (htaken : s.files.acquire index 1 = some files) :
    Accounted settings { s with files } :=
  { h with
    files := h.files.acquire (Finset.mem_range.mpr hlt) htaken
    limits := ⟨(SharedBudget.limit_of_acquire htaken).trans h.limits.1, h.limits.2⟩
    unopened := by
      intro other hother
      have hne : other ≠ index := fun heq => hother (heq ▸ h.running index htask)
      have hnone := h.unopened other hother
      exact ⟨(SharedBudget.held_of_acquire htaken hne).trans hnone.1, hnone.2⟩ }

theorem Accounted.write (h : Accounted settings s) {index amount : Nat}
    (hlt : index < settings.configurations) (htask : s.analysis index = .running)
    {bytes : SharedBudget Nat} (htaken : s.bytes.acquire index amount = some bytes) :
    Accounted settings { s with bytes } :=
  { h with
    bytes := h.bytes.acquire (Finset.mem_range.mpr hlt) htaken
    limits := ⟨h.limits.1, (SharedBudget.limit_of_acquire htaken).trans h.limits.2⟩
    unopened := by
      intro other hother
      have hne : other ≠ index := fun heq => hother (heq ▸ h.running index htask)
      have hnone := h.unopened other hother
      exact ⟨hnone.1, (SharedBudget.held_of_acquire htaken hne).trans hnone.2⟩ }

theorem accounted_step (h : Accounted settings s) (hcounted : Counted settings s)
    (hsubmitted : Submitted s) (hstep : Step settings s next) : Accounted settings next := by
  cases hstep with
  | coordinator hstep =>
      cases hstep with
      | wake | halt | converted | scheduled | finish | pause | breakdown | collect =>
          exact { h with }
      | refuse => exact { h.cancelFutures with }
      | fail =>
          have hcollected : Accounted settings s.collect := { h with }
          exact { hcollected.cancelFutures with }
      | convert => exact h.submitConversion
      | schedule => exact h.submitAnalysis hsubmitted _
  | consumer hstep =>
      cases hstep with
      | take | raise | resume | abandon | complete | join | drain | exit => exact { h with }
      | stop => exact { h.cancelFutures with }
      | close _ hindex =>
          have htask := hsubmitted.leftover hcounted hindex
          exact h.close (by simp [htask])
  | worker hstep =>
      cases hstep with
      | beginAnalysis htask => exact h.beginAnalysis hsubmitted htask _
      | openFile htask htaken =>
          exact h.openFile (hcounted.lt_of_active hsubmitted (by rw [htask]; rfl)) htask htaken
      | write htask htaken =>
          exact h.write (hcounted.lt_of_active hsubmitted (by rw [htask]; rfl)) htask htaken
      | @analyzed index _ htask =>
          have hanalyzed : Accounted settings (s.analyze index (.leaving true)) :=
            h.analyze (fun _ => rfl) (by simp)
          exact { hanalyzed with }
      | @notAnalyzed index _ htask =>
          have hclosed : Accounted settings ((s.close index).analyze index (.leaving false)) :=
            h.closeAnalysis (by simp)
          exact { hclosed with }
      | @endAnalysis index success htask =>
          refine h.analyze (fun hopened => ?_) (by simp)
          have hholds := (h.opened index hopened).1
          rw [htask] at hholds
          cases success
          · cases hholds
          · rfl
      | @beginConversion index htask =>
          have hconverted : Accounted settings (s.convert index .running) :=
            h.convert fun _ => rfl
          exact { hconverted with }
      | @converted index success _ htask =>
          have hanalyzed := hsubmitted.analyzed index (by
            by_contra hnot
            rw [(hsubmitted.conversion_iff index).mpr (Nat.not_lt.mp hnot)] at htask
            cases htask)
          have hclosed : Accounted settings ((s.close index).convert index (.leaving success)) :=
            (h.close (by simp [hanalyzed])).convert (by simp [State.close])
          exact { hclosed with }
      | @endConversion index success htask =>
          refine h.convert fun hopened => ?_
          have hended := (h.opened index hopened).2
          rw [htask] at hended
          cases hended

/-! ## The end of the generator -/

/-- The coordinator's thread has been joined. -/
def Consumer.joined : Consumer → Bool
  | draining _ | releasing _ | exited _ => true
  | _ => false

/-- Both executors have shut down. -/
def Consumer.drained : Consumer → Bool
  | releasing _ | exited _ => true
  | _ => false

theorem Consumer.joined_of_drained {consumer : Consumer} (h : consumer.drained = true) :
    consumer.joined = true := by
  cases consumer <;> simp_all [drained, joined]

/-- What the last steps of the generator wait for, and that nobody closes a registry earlier. -/
structure Ending (s : State) : Prop where
  returned : s.consumer.joined = true → s.coordinator = .returned
  idle : s.consumer.drained = true →
    ∀ index, (s.analysis index).active = false ∧ (s.conversion index).active = false
  kept : s.consumer.drained = false → ∀ index, (s.analysis index).holds = true →
    (s.conversion index).ended = false → s.registry index = .opened
  closed : ∀ complete, s.consumer = .exited complete → ∀ index, s.registry index ≠ .opened

theorem ending_initial : Ending (initial settings) where
  returned := by simp [initial, Consumer.joined]
  idle := by simp [initial, Consumer.drained]
  kept := by simp [initial, Task.holds]
  closed := by simp [initial]

@[simp] theorem holds_cancel (task : Task) : task.cancel.holds = task.holds := by
  cases task <;> rfl

@[simp] theorem ended_cancel (task : Task) : task.cancel.ended = task.ended := by
  cases task <;> rfl

theorem holds_cancelFutures (index : Nat) :
    (s.cancelFutures.analysis index).holds = (s.analysis index).holds := by
  by_cases hmem : index ∈ s.analysisFutures <;> simp [State.cancelFutures, hmem]

theorem ended_cancelFutures (index : Nat) :
    (s.cancelFutures.conversion index).ended = (s.conversion index).ended := by
  by_cases hmem : index ∈ s.conversionFutures <;> simp [State.cancelFutures, hmem]

theorem Coordinates.consumer_eq (hstep : Coordinates settings s next) :
    next.consumer = s.consumer := by
  cases hstep <;> rfl

/-- Nothing coordinates once the thread has been joined. -/
theorem Ending.not_joined (h : Ending s) (hstep : Coordinates settings s next) :
    s.consumer.joined = false := by
  by_contra hjoined
  have hreturned := h.returned (by simpa using hjoined)
  cases hstep with
  | breakdown hlocked => exact hlocked (.inr hreturned)
  | wake hcoordinator | halt hcoordinator | refuse hcoordinator | fail hcoordinator
  | collect hcoordinator | convert hcoordinator | converted hcoordinator | schedule hcoordinator
  | scheduled hcoordinator | finish hcoordinator | pause hcoordinator =>
      rw [hreturned] at hcoordinator
      cases hcoordinator

/-- The coordinator submits and cancels, and leaves the registries alone. -/
theorem Ending.kept_coordinates (h : Ending s) (hsubmitted : Submitted s)
    (hdrained : s.consumer.drained = false) (hstep : Coordinates settings s next) (index : Nat)
    (hholds : (next.analysis index).holds = true)
    (hended : (next.conversion index).ended = false) : next.registry index = .opened := by
  have hkept := h.kept hdrained index
  cases hstep with
  | wake | halt | collect | converted | scheduled | finish | pause | breakdown =>
      exact hkept hholds hended
  | refuse =>
      exact hkept (holds_cancelFutures index ▸ hholds) (ended_cancelFutures index ▸ hended)
  | fail =>
      exact hkept (holds_cancelFutures (s := s.collect) index ▸ hholds)
        (ended_cancelFutures (s := s.collect) index ▸ hended)
  | convert =>
      apply hkept hholds
      by_cases hsame : index = s.nextConversion
      · rw [(hsubmitted.conversion_iff index).mpr (Nat.le_of_eq hsame.symm)]
        rfl
      · simpa [State.submitConversion, State.convert, hsame] using hended
  | schedule =>
      by_cases hsame : index = s.nextConfiguration
      · simp [State.submitAnalysis, State.analyze, State.updateState, hsame, Task.holds] at hholds
      · simp only [State.submitAnalysis, State.analyze, State.updateState,
          Function.update_of_ne hsame] at hholds
        exact hkept hholds hended

theorem Ending.coordinates (h : Ending s) (hsubmitted : Submitted s)
    (hstep : Coordinates settings s next) : Ending next := by
  have hjoined : next.consumer.joined = false := hstep.consumer_eq ▸ h.not_joined hstep
  have hdrained : next.consumer.drained = false := by
    by_contra hnot
    rw [Consumer.joined_of_drained (by simpa using hnot)] at hjoined
    cases hjoined
  exact
    { returned := by simp [hjoined]
      idle := by simp [hdrained]
      kept := fun _ => h.kept_coordinates hsubmitted (hstep.consumer_eq ▸ hdrained) hstep
      closed := by
        intro complete hexited
        simp [hexited, Consumer.drained] at hdrained }

/-- Whatever is open when nothing runs any more is left over for the generator. -/
theorem Accounted.mem_leftover (h : Accounted settings s) (hcounted : Counted settings s)
    (hsubmitted : Submitted s) {index : Nat}
    (hidle : (s.analysis index).active = false ∧ (s.conversion index).active = false)
    (hopened : s.registry index = .opened) : index ∈ s.leftover := by
  obtain ⟨hholds, hended⟩ := h.opened index hopened
  have hdone : s.analysis index = .finished true := by
    cases htask : s.analysis index with
    | finished success => cases success <;> simp_all [Task.holds]
    | unsubmitted | queued | running | leaving | cancelled =>
        simp_all [Task.holds, Task.active]
  have hscheduled : index < s.nextConfiguration := by
    by_contra hnot
    rw [(hsubmitted.analysis_iff index).mpr (Nat.not_lt.mp hnot)] at hdone
    cases hdone
  simp only [State.leftover, Finset.mem_union, Finset.mem_filter]
  by_cases hconverted : index < s.nextConversion
  · have hreleased : s.released ≤ index := by
      by_contra hnot
      rw [hsubmitted.converted index (Nat.not_le.mp hnot)] at hended
      cases hended
    exact .inl (.inr (by simp [hcounted.registries_eq, hreleased, hconverted]))
  · rcases hsubmitted.listed index (Nat.not_lt.mp hconverted) hscheduled with
      hmem | hmem | hfailed | hcancelled
    · exact .inr ⟨hmem, hdone⟩
    · exact .inl (.inl hmem)
    · simp [hdone] at hfailed
    · simp [hdone] at hcancelled

theorem Ending.consumes (h : Ending s) (hcounted : Counted settings s) (hsubmitted : Submitted s)
    (haccounted : Accounted settings s) (hstep : Consumes settings s next) : Ending next := by
  cases hstep with
  | take _ hconsumer | raise _ hconsumer | resume _ hconsumer | abandon _ hconsumer
  | complete _ hconsumer =>
      exact
        { returned := by simp [Consumer.joined]
          idle := by simp [Consumer.drained]
          kept := fun _ => h.kept (by simp [hconsumer, Consumer.drained])
          closed := by simp }
  | stop _ hconsumer =>
      exact
        { returned := by simp [Consumer.joined]
          idle := by simp [Consumer.drained]
          kept := by
            intro _ index hholds hended
            exact h.kept (by simp [hconsumer, Consumer.drained]) index
              (holds_cancelFutures index ▸ hholds) (ended_cancelFutures index ▸ hended)
          closed := by simp }
  | join hconsumer hreturned =>
      exact
        { returned := fun _ => hreturned
          idle := by simp [Consumer.drained]
          kept := fun _ => h.kept (by simp [hconsumer, Consumer.drained])
          closed := by simp }
  | drain hconsumer hidle =>
      exact
        { returned := fun _ => h.returned (by simp [hconsumer, Consumer.joined])
          idle := fun _ => hidle
          kept := by simp [Consumer.drained]
          closed := by simp }
  | close hconsumer =>
      exact
        { returned := h.returned
          idle := h.idle
          kept := by simp [State.close, hconsumer, Consumer.drained]
          closed := by simp [State.close, hconsumer] }
  | exit hconsumer hclosed =>
      have hidle := h.idle (by simp [hconsumer, Consumer.drained])
      exact
        { returned := fun _ => h.returned (by simp [hconsumer, Consumer.joined])
          idle := fun _ => hidle
          kept := by simp [Consumer.drained]
          closed := by
            intro _ _ index hopened
            exact hclosed index
              (haccounted.mem_leftover hcounted hsubmitted (hidle index) hopened) hopened }

/-- Only a call that has not ended takes a step. -/
theorem Works.exists_active (hstep : Works s next) :
    ∃ index, (s.analysis index).active = true ∨ (s.conversion index).active = true := by
  cases hstep with
  | @beginAnalysis index htask | @openFile index _ htask | @write index _ _ htask
  | @analyzed index _ htask | @notAnalyzed index _ htask | @endAnalysis index _ htask =>
      exact ⟨index, .inl (by rw [htask]; rfl)⟩
  | @beginConversion index htask | @converted index _ _ htask | @endConversion index _ htask =>
      exact ⟨index, .inr (by rw [htask]; rfl)⟩

theorem Works.consumer_eq (hstep : Works s next) :
    next.consumer = s.consumer ∧ next.coordinator = s.coordinator := by
  cases hstep <;> exact ⟨rfl, rfl⟩

/-- A call opens its registry when it begins, and closes it when it fails or has converted it. -/
theorem Ending.kept_works (h : Ending s) (hdrained : s.consumer.drained = false)
    (hstep : Works s next) (index : Nat) (hholds : (next.analysis index).holds = true)
    (hended : (next.conversion index).ended = false) : next.registry index = .opened := by
  have hkept := h.kept hdrained index
  cases hstep with
  | openFile | write => exact hkept hholds hended
  | @beginAnalysis other htask =>
      by_cases hsame : index = other
      · simp [hsame]
      · simp only [State.analyze, State.report, Function.update_of_ne hsame] at hholds ⊢
        exact hkept hholds hended
  | @analyzed other _ htask =>
      apply hkept _ hended
      by_cases hsame : index = other
      · rw [hsame, htask]
        rfl
      · simpa [State.analyze, State.report, hsame] using hholds
  | @notAnalyzed other _ htask =>
      by_cases hsame : index = other
      · simp [State.analyze, hsame, Task.holds] at hholds
      · simp only [State.analyze, State.report, State.close, Function.update_of_ne hsame]
          at hholds ⊢
        exact hkept hholds hended
  | @endAnalysis other success htask =>
      apply hkept _ hended
      by_cases hsame : index = other
      · rw [hsame, htask]
        cases success
        · simp [State.analyze, hsame, Task.holds] at hholds
        · rfl
      · simpa [State.analyze, hsame] using hholds
  | @beginConversion other htask =>
      apply hkept hholds
      by_cases hsame : index = other
      · rw [hsame, htask]
        rfl
      · simpa [State.convert, State.report, hsame] using hended
  | @converted other _ _ htask =>
      by_cases hsame : index = other
      · simp [State.convert, hsame, Task.ended] at hended
      · simp only [State.convert, State.report, State.close, Function.update_of_ne hsame]
          at hended ⊢
        exact hkept hholds hended
  | @endConversion other _ htask =>
      apply hkept hholds
      by_cases hsame : index = other
      · simp [State.convert, hsame, Task.ended] at hended
      · simpa [State.convert, hsame] using hended

theorem Ending.works (h : Ending s) (hstep : Works s next) : Ending next := by
  obtain ⟨hconsumer, hcoordinator⟩ := hstep.consumer_eq
  have hdrained : s.consumer.drained = false := by
    by_contra hnot
    obtain ⟨index, hactive⟩ := hstep.exists_active
    have hidle := h.idle (by simpa using hnot) index
    simp [hidle] at hactive
  exact
    { returned := by
        rw [hconsumer, hcoordinator]
        exact h.returned
      idle := by simp [hconsumer, hdrained]
      kept := fun _ => h.kept_works hdrained hstep
      closed := by
        intro complete hexited
        rw [hconsumer] at hexited
        simp [hexited, Consumer.drained] at hdrained }

theorem ending_step (h : Ending s) (hcounted : Counted settings s) (hsubmitted : Submitted s)
    (haccounted : Accounted settings s) (hstep : Step settings s next) : Ending next := by
  cases hstep with
  | coordinator hstep => exact h.coordinates hsubmitted hstep
  | consumer hstep => exact h.consumes hcounted hsubmitted haccounted hstep
  | worker hstep => exact h.works hstep

/-! ## All runs -/

variable (settings) in
structure Invariant (s : State) : Prop where
  counted : Counted settings s
  submitted : Submitted s
  slotted : Slotted settings s
  accounted : Accounted settings s
  ending : Ending s

theorem invariant_initial : Invariant settings (initial settings) where
  counted := counted_initial
  submitted := submitted_initial
  slotted := slotted_initial
  accounted := accounted_initial
  ending := ending_initial

theorem invariant_step (h : Invariant settings s) (hstep : Step settings s next) :
    Invariant settings next where
  counted := counted_step h.counted hstep
  submitted := submitted_step h.submitted h.counted hstep
  slotted := slotted_step h.slotted h.counted hstep
  accounted := accounted_step h.accounted h.counted h.submitted hstep
  ending := ending_step h.ending h.counted h.submitted h.accounted hstep

theorem Reachable.invariant (h : Reachable settings s) : Invariant settings s := by
  induction h with
  | refl => exact invariant_initial
  | tail _ hstep ih => exact invariant_step ih hstep

theorem Invariant.card_analyses_le (h : Invariant settings s) {active : Finset Nat}
    (hactive : ∀ index ∈ active, (s.analysis index).active = true) :
    active.card ≤ settings.maxWorkers := by
  have hsubset : active ⊆ s.analysisFutures :=
    fun index hindex => h.submitted.mem_futures (hactive index hindex)
  calc
    active.card ≤ s.analysisFutures.card := Finset.card_le_card hsubset
    _ ≤ settings.workerCount := h.slotted.card_le
    _ ≤ settings.maxWorkers := Nat.min_le_left _ _

/-- The batches between the consumer and the converters are one stretch of the input. -/
theorem Invariant.card_batches_le (h : Invariant settings s) {batches : Finset Nat}
    (hbatches : ∀ index ∈ batches,
      s.released ≤ index ∧ s.conversion index ≠ .unsubmitted) :
    batches.card ≤ settings.domainBatches := by
  have hsubset : batches ⊆ Finset.Ico s.released s.nextConversion := by
    intro index hindex
    obtain ⟨hle, hsubmitted⟩ := hbatches index hindex
    rw [ne_eq, h.submitted.conversion_iff index, Nat.not_le] at hsubmitted
    exact Finset.mem_Ico.mpr ⟨hle, hsubmitted⟩
  have hcard := Finset.card_le_card hsubset
  have hdomain := h.counted.domain_le
  rw [Nat.card_Ico] at hcard
  omega

theorem Invariant.card_registries_le (h : Invariant settings s) {registries : Finset Nat}
    (hopened : ∀ index ∈ registries, s.registry index = .opened) :
    registries.card ≤ settings.maxSpoolRegistries := by
  have hsubset : registries ⊆ Finset.Ico s.released s.nextConfiguration := by
    intro index hindex
    obtain ⟨hholds, hended⟩ := h.accounted.opened index (hopened index hindex)
    apply Finset.mem_Ico.mpr
    constructor
    · by_contra hnot
      rw [h.submitted.converted index (Nat.not_le.mp hnot)] at hended
      cases hended
    · by_contra hnot
      rw [(h.submitted.analysis_iff index).mpr (Nat.not_lt.mp hnot)] at hholds
      cases hholds
  have hcard := Finset.card_le_card hsubset
  have hheld := h.counted.held_eq
  have hlimit := h.counted.held_le
  rw [Nat.card_Ico] at hcard
  omega

theorem Invariant.yielded_of_complete (h : Invariant settings s)
    (hexited : s.consumer = .exited true) : s.yielded = List.range settings.configurations := by
  have hreleased := h.counted.complete (by simp [hexited, Consumer.complete])
  rw [h.counted.yielded_eq, hreleased, hexited]
  rfl

/-- Two configurations, with room for one of each kind. -/
def Settings.narrow : Settings where
  configurations := 2
  maxWorkers := 1
  maxSpoolRegistries := 1
  maxSpoolBytes := 1
  maxSpoolFds := 1
  maxDomainBatches := 1
  selected := Nat.two_pos
  positive := ⟨Nat.one_pos, Nat.one_pos, Nat.one_pos, Nat.one_pos, Nat.one_pos⟩
  covered := le_rfl

/-- A generator that was left before its first batch. -/
def left : State :=
  { (initial .narrow).cancelFutures with
    stopped := true
    coordinator := .returned
    consumer := .exited false }

theorem left_reachable : Reachable .narrow left := by
  have hinitial : Reachable .narrow (initial .narrow) := .refl
  have hraised := hinitial.tail (.consumer (.raise (.inl rfl) rfl))
  have hstopped := hraised.tail (.consumer (.stop (.inl rfl) rfl))
  have hawake := hstopped.tail (.coordinator (.wake rfl))
  have hreturned := hawake.tail (.coordinator (.halt rfl rfl))
  have hjoined := hreturned.tail (.consumer (.join rfl rfl))
  have hdrained := hjoined.tail (.consumer (.drain rfl (by
    simp [State.cancelFutures, initial, Task.active])))
  exact hdrained.tail (.consumer (.exit rfl (by simp [State.cancelFutures, initial])))

end CppContextEngine.Ingestion.AnalyzerPipeline
