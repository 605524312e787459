import Mathlib.Algebra.Order.Group.Basic
import Mathlib.Data.List.Induction
import Mathlib.Order.Bounds.Basic

/-!
# Logs of events

A protocol says which event may follow which log.  A stopwatch runs while a
condition holds: it sees samples of the condition, each with its time, and keeps
the longest time for which the condition has held.
-/

namespace CppContextEngine.Foundation

/-! ## Protocols -/

section Protocol

variable {α : Type} {follows : List α → α → Prop} {log : List α} {event : α}

/-- Every event of the log follows the ones before it. -/
def Orderly (follows : List α → α → Prop) (log : List α) : Prop :=
  ∀ before event after, log = before ++ event :: after → follows before event

theorem orderly_nil : Orderly follows [] := by
  simp [Orderly]

theorem orderly_append :
    Orderly follows (log ++ [event]) ↔ Orderly follows log ∧ follows log event := by
  constructor
  · intro h
    constructor
    · rintro before other after rfl
      exact h before other (after ++ [event]) (by simp)
    · exact h log event [] rfl
  · rintro ⟨hlog, hevent⟩ before other after heq
    rcases List.eq_nil_or_concat after with rfl | ⟨rest, last, rfl⟩
    · obtain ⟨rfl, hsame⟩ := List.append_inj' heq rfl
      cases hsame
      exact hevent
    · rw [List.concat_eq_append, ← List.cons_append, ← List.append_assoc] at heq
      obtain ⟨hbefore, -⟩ := List.append_inj' heq rfl
      exact hlog before other rest hbefore

end Protocol

variable {Time : Type}

/-! ## Stretches -/

/-- The condition holds at each sample from `first` on, up to `last`. -/
def Unbroken (samples : List (Time × Bool)) (first last : Nat) : Prop :=
  ∀ index, first ≤ index → index < last → ∃ time, samples[index]? = some (time, true)

/-- The condition holds from the sample at `start` to the one at `stop`. -/
def Stretch (samples : List (Time × Bool)) (start stop : Time) : Prop :=
  ∃ first last, first < last ∧ Unbroken samples first last ∧
    (samples[first]?).map Prod.fst = some start ∧ (samples[last]?).map Prod.fst = some stop

/-- The condition holds from the sample at `start` to the end. -/
def OpenStretch (samples : List (Time × Bool)) (start : Time) : Prop :=
  ∃ first, first < samples.length ∧ Unbroken samples first samples.length ∧
    (samples[first]?).map Prod.fst = some start

theorem unbroken_append {samples : List (Time × Bool)} {sample : Time × Bool} {first last : Nat}
    (hlast : last ≤ samples.length) :
    Unbroken (samples ++ [sample]) first last ↔ Unbroken samples first last := by
  unfold Unbroken
  constructor
  · intro h index hge hlt
    obtain ⟨time, htime⟩ := h index hge hlt
    rw [List.getElem?_append_left (by omega)] at htime
    exact ⟨time, htime⟩
  · intro h index hge hlt
    obtain ⟨time, htime⟩ := h index hge hlt
    exact ⟨time, by rw [List.getElem?_append_left (by omega), htime]⟩

/-- A new sample ends the open stretches. -/
theorem stretch_append {samples : List (Time × Bool)} {now : Time} {holds : Bool}
    {start stop : Time} :
    Stretch (samples ++ [(now, holds)]) start stop ↔
      Stretch samples start stop ∨ OpenStretch samples start ∧ stop = now := by
  constructor
  · rintro ⟨first, last, hlt, hunbroken, hstart, hstop⟩
    by_cases hlast : last < samples.length
    · left
      rw [unbroken_append (by omega)] at hunbroken
      rw [List.getElem?_append_left (by omega)] at hstart hstop
      exact ⟨first, last, hlt, hunbroken, hstart, hstop⟩
    · right
      have hend : last = samples.length := by
        by_contra hne
        rw [List.getElem?_eq_none (by simp; omega)] at hstop
        cases hstop
      subst hend
      rw [unbroken_append le_rfl] at hunbroken
      rw [List.getElem?_append_left (by omega)] at hstart
      refine ⟨⟨first, hlt, hunbroken, hstart⟩, ?_⟩
      simpa using hstop.symm
  · rintro (⟨first, last, hlt, hunbroken, hstart, hstop⟩ |
      ⟨⟨first, hlt, hunbroken, hstart⟩, rfl⟩)
    · have hlast : last < samples.length := by
        by_contra hnot
        rw [List.getElem?_eq_none (by omega)] at hstop
        cases hstop
      refine ⟨first, last, hlt, (unbroken_append (by omega)).mpr hunbroken, ?_, ?_⟩
      · rw [List.getElem?_append_left (by omega), hstart]
      · rw [List.getElem?_append_left (by omega), hstop]
    · refine ⟨first, samples.length, hlt, (unbroken_append le_rfl).mpr hunbroken, ?_, ?_⟩
      · rw [List.getElem?_append_left (by omega), hstart]
      · simp

theorem openStretch_append {samples : List (Time × Bool)} {now : Time} {holds : Bool}
    {start : Time} :
    OpenStretch (samples ++ [(now, holds)]) start ↔
      holds = true ∧ (OpenStretch samples start ∨ start = now) := by
  constructor
  · rintro ⟨first, hlt, hunbroken, hstart⟩
    have hlength : (samples ++ [(now, holds)]).length = samples.length + 1 := by simp
    rw [hlength] at hlt hunbroken
    have hholds : holds = true := by
      obtain ⟨time, htime⟩ := hunbroken samples.length (by omega) (by omega)
      simpa using congrArg (Option.map Prod.snd) htime
    refine ⟨hholds, ?_⟩
    by_cases hbefore : first < samples.length
    · left
      refine ⟨first, hbefore, ?_, ?_⟩
      · exact (unbroken_append le_rfl).mp fun index hge hindex =>
          hunbroken index hge (by omega)
      · rwa [List.getElem?_append_left hbefore] at hstart
    · right
      have hlast : first = samples.length := by omega
      subst hlast
      simpa using hstart.symm
  · rintro ⟨rfl, ⟨first, hlt, hunbroken, hstart⟩ | rfl⟩
    · refine ⟨first, by simp; omega, ?_, ?_⟩
      · intro index hge hindex
        by_cases hlast : index < samples.length
        · exact (unbroken_append le_rfl).mpr hunbroken index hge hlast
        · have hend : index = samples.length := by
            simp only [List.length_append, List.length_singleton] at hindex
            omega
          exact ⟨now, by simp [hend]⟩
      · rw [List.getElem?_append_left hlt, hstart]
    · refine ⟨samples.length, by simp, ?_, by simp⟩
      intro index hge hindex
      have hend : index = samples.length := by
        simp only [List.length_append, List.length_singleton] at hindex
        omega
      exact ⟨start, by simp [hend]⟩

/-! ## Stopwatches -/

variable [AddCommGroup Time] [LinearOrder Time]

/-- Since when the condition holds, and the longest time for which it did. -/
structure Stopwatch (Time : Type) where
  since : Option Time
  longest : Time

namespace Stopwatch

def fresh : Stopwatch Time where
  since := none
  longest := 0

def measure (watch : Stopwatch Time) (now : Time) : Stopwatch Time :=
  match watch.since with
  | none => watch
  | some since => { watch with longest := max watch.longest (now - since) }

def mark (watch : Stopwatch Time) (now : Time) (holds : Bool) : Stopwatch Time :=
  { watch with since := if holds then some (watch.since.getD now) else none }

def observe (watch : Stopwatch Time) (sample : Time × Bool) : Stopwatch Time :=
  (watch.measure sample.1).mark sample.1 sample.2

def run (samples : List (Time × Bool)) : Stopwatch Time :=
  samples.foldl observe fresh

theorem run_append_singleton (samples : List (Time × Bool)) (sample : Time × Bool) :
    run (samples ++ [sample]) = (run samples).observe sample := by
  simp [run]

end Stopwatch

/-! ## What a stopwatch shows -/

variable [IsOrderedAddMonoid Time]

/-- How long the condition has held between two samples. -/
def Durations (samples : List (Time × Bool)) : Set Time :=
  {duration | duration = 0 ∨
    ∃ start stop, Stretch samples start stop ∧ duration = stop - start}

structure Stopwatch.Shows (watch : Stopwatch Time) (samples : List (Time × Bool)) : Prop where
  stopped : watch.since = none → ∀ start, ¬ OpenStretch samples start
  running : ∀ since, watch.since = some since → IsLeast {start | OpenStretch samples start} since
  longest : IsGreatest (Durations samples) watch.longest

omit [IsOrderedAddMonoid Time] in
theorem Stopwatch.shows_fresh : (fresh : Stopwatch Time).Shows [] where
  stopped := by
    rintro - start ⟨first, hlt, -⟩
    simp at hlt
  running := by simp [fresh]
  longest := by
    refine ⟨.inl rfl, ?_⟩
    rintro duration (rfl | ⟨start, stop, ⟨first, last, -, -, hstart, -⟩, -⟩)
    · exact le_rfl
    · simp at hstart

omit [AddCommGroup Time] [IsOrderedAddMonoid Time] in
theorem OpenStretch.le {samples : List (Time × Bool)} {start now : Time}
    (h : OpenStretch samples start) (hlast : ∀ sample ∈ samples, sample.1 ≤ now) :
    start ≤ now := by
  obtain ⟨first, -, -, hstart⟩ := h
  obtain ⟨sample, hsample, rfl⟩ := Option.map_eq_some_iff.mp hstart
  exact hlast sample (List.mem_of_getElem? hsample)

/-- Since when the stopwatch runs is all that a bound on the open stretches needs. -/
theorem Stopwatch.Shows.openStretch_le_iff {watch : Stopwatch Time}
    {samples : List (Time × Bool)} (h : watch.Shows samples) {now limit : Time} :
    (∀ since, watch.since = some since → now - since ≤ limit) ↔
      ∀ start, OpenStretch samples start → now - start ≤ limit := by
  constructor
  · intro hlimit start hopen
    cases hsince : watch.since with
    | none => exact absurd hopen (h.stopped hsince start)
    | some since =>
        have hle := (h.running since hsince).2 hopen
        exact (sub_le_sub_left hle now).trans (hlimit since hsince)
  · intro hlimit since hsince
    exact hlimit since (h.running since hsince).1

/-- The first open stretch is the longest one. -/
theorem Stopwatch.Shows.measure {watch : Stopwatch Time} {samples : List (Time × Bool)}
    (h : watch.Shows samples) (now : Time) (holds : Bool) :
    IsGreatest (Durations (samples ++ [(now, holds)])) (watch.measure now).longest := by
  obtain ⟨hmem, hupper⟩ := h.longest
  unfold Stopwatch.measure
  cases hsince : watch.since with
  | none =>
      constructor
      · rcases hmem with hzero | ⟨start, stop, hstretch, hduration⟩
        · exact .inl hzero
        · exact .inr ⟨start, stop, stretch_append.mpr (.inl hstretch), hduration⟩
      · rintro duration (hzero | ⟨start, stop, hstretch, hduration⟩)
        · exact hupper (.inl hzero)
        · rcases stretch_append.mp hstretch with hold | ⟨hopen, -⟩
          · exact hupper (.inr ⟨start, stop, hold, hduration⟩)
          · exact absurd hopen (h.stopped hsince start)
  | some since =>
      obtain ⟨hopen, hleast⟩ := h.running since hsince
      constructor
      · by_cases hle : watch.longest ≤ now - since
        · simp only [max_eq_right hle]
          exact .inr ⟨since, now, stretch_append.mpr (.inr ⟨hopen, rfl⟩), rfl⟩
        · simp only [max_eq_left (le_of_not_ge hle)]
          rcases hmem with hzero | ⟨start, stop, hstretch, hduration⟩
          · exact .inl hzero
          · exact .inr ⟨start, stop, stretch_append.mpr (.inl hstretch), hduration⟩
      · rintro duration (hzero | ⟨start, stop, hstretch, rfl⟩)
        · exact (hupper (.inl hzero)).trans (le_max_left _ _)
        · rcases stretch_append.mp hstretch with hold | ⟨hnew, rfl⟩
          · exact (hupper (.inr ⟨start, stop, hold, rfl⟩)).trans (le_max_left _ _)
          · exact (sub_le_sub_left (hleast hnew) stop).trans (le_max_right _ _)

theorem Stopwatch.Shows.observe {watch : Stopwatch Time} {samples : List (Time × Bool)}
    (h : watch.Shows samples) {now : Time} {holds : Bool}
    (hlast : ∀ sample ∈ samples, sample.1 ≤ now) :
    (watch.observe (now, holds)).Shows (samples ++ [(now, holds)]) where
  longest := h.measure now holds
  stopped := by
    intro hsince start hopen
    obtain ⟨rfl, -⟩ := openStretch_append.mp hopen
    simp [Stopwatch.observe, Stopwatch.mark] at hsince
  running := by
    intro since hsince
    have hsame : (watch.measure now).since = watch.since := by
      unfold Stopwatch.measure
      cases hcase : watch.since <;> simp [hcase]
    cases holds with
    | false => simp [Stopwatch.observe, Stopwatch.mark] at hsince
    | true =>
        simp only [Stopwatch.observe, Stopwatch.mark, hsame, ↓reduceIte, Option.some.injEq]
          at hsince
        cases hcase : watch.since with
        | none =>
            rw [hcase, Option.getD_none] at hsince
            subst hsince
            refine ⟨openStretch_append.mpr ⟨rfl, .inr rfl⟩, ?_⟩
            intro start hopen
            rcases (openStretch_append.mp hopen).2 with hold | heq
            · exact absurd hold (h.stopped hcase start)
            · exact heq.ge
        | some old =>
            rw [hcase, Option.getD_some] at hsince
            subst hsince
            obtain ⟨hold, hleast⟩ := h.running old hcase
            refine ⟨openStretch_append.mpr ⟨rfl, .inl hold⟩, ?_⟩
            intro start hopen
            rcases (openStretch_append.mp hopen).2 with hother | rfl
            · exact hleast hother
            · exact hold.le hlast

/-- After samples in the order of time a stopwatch shows the longest stretch exactly. -/
theorem Stopwatch.run_shows {samples : List (Time × Bool)}
    (hsorted : samples.Pairwise fun earlier later => earlier.1 ≤ later.1) :
    (run samples).Shows samples := by
  induction samples using List.reverseRecOn with
  | nil => exact shows_fresh
  | append_singleton samples sample ih =>
      rw [List.pairwise_append] at hsorted
      rw [run_append_singleton]
      exact (ih hsorted.1).observe fun earlier hearlier =>
        hsorted.2.2 earlier hearlier sample (List.mem_singleton.mpr rfl)

end CppContextEngine.Foundation
