import Mathlib.Data.Set.Function
import Mathlib.Logic.Relation

/-!
# Coalesced deep requests

`DeepMaterializer.materialize` as the steps of any number of clients.  Clients
of one key share the future of the first of them, and all leaders share one
admission lock.  A step is what a client does between two points where another
thread can run.
-/

namespace CppContextEngine.Ingestion.DeepRequests

/-! ## Requests -/

/-- What the clients ask for, one call each. -/
structure Requests (Client Key : Type) where
  key : Client → Key
  /-- The clock reading at which the client's wall time is over. -/
  deadline : Client → Nat
  maxWallSeconds : Key → Nat
  /-- The client's signal has a publication guard, as `DeepCancellation` has. -/
  guarded : Client → Bool

/-- Why an exception was raised, and in whose request. -/
inductive Cause (Client : Type) where
  | cancelled (client : Client)
  | expired (client : Client)
  | failed (client : Client)
  deriving DecidableEq

/-- An exception; `timeout` tells a `TimeoutError`, which `future.result` raises as well. -/
structure Failure (Client : Type) where
  cause : Cause Client
  timeout : Bool
  deriving DecidableEq

inductive Outcome (Client Result : Type) where
  | result (value : Result)
  | error (failure : Failure Client)
  deriving DecidableEq

/-- Where a client is in `materialize`. -/
inductive Phase (Client Result : Type) where
  | idle
  | called
  /-- A follower before the check of its own control. -/
  | following (leader : Client)
  /-- A follower in `future.result`. -/
  | waiting (leader : Client)
  /-- A leader before the check of its own control. -/
  | queued
  /-- A leader in `self._admission.acquire`. -/
  | acquiring
  /-- A leader in `self._materialize`. -/
  | working
  /-- A leader that holds its publication guard and has not checked its control. -/
  | guarding
  /-- A leader that holds its publication guard and has checked its control. -/
  | committing
  /-- A leader that is about to release the admission lock. -/
  | leaving (outcome : Outcome Client Result)
  /-- A leader that is about to complete its future. -/
  | settling (outcome : Outcome Client Result)
  /-- A leader that is about to remove its future from `_inflight`. -/
  | unregistering (outcome : Outcome Client Result)
  | returned (outcome : Outcome Client Result)
  deriving DecidableEq

structure State (Client Key Result : Type) where
  now : Nat
  phase : Client → Phase Client Result
  /-- The clients whose signal is set. -/
  signalled : Client → Bool
  /-- The futures, by the client that has created them. -/
  future : Client → Option (Outcome Client Result)
  inflight : Key → Option Client
  admission : Option Client
  /-- What the calls of `_materialize` have returned so far. -/
  made : List (Client × Result)

variable {Client Key Result : Type} [DecidableEq Client] [DecidableEq Key]

def initial : State Client Key Result where
  now := 0
  phase _ := .idle
  signalled _ := false
  future _ := none
  inflight _ := none
  admission := none
  made := []

namespace State

/-- `DeepRequestControl.check` -/
def check (q : Requests Client Key) (s : State Client Key Result) (client : Client) :
    Option (Cause Client) :=
  if s.signalled client then some (.cancelled client)
  else if q.deadline client ≤ s.now then some (.expired client)
  else none

def move (s : State Client Key Result) (client : Client) (phase : Phase Client Result) :
    State Client Key Result :=
  { s with phase := Function.update s.phase client phase }

end State

/-- The exception that a failed check raises. -/
def raised : Cause Client → Failure Client
  | .expired client => ⟨.expired client, true⟩
  | cause => ⟨cause, false⟩

/-- `phase` holds the publication guard. -/
def Guards : Phase Client Result → Prop
  | .guarding | .committing => True
  | _ => False

/-! ## Steps -/

inductive Action (Client Result : Type) where
  | tick
  | set (client : Client)
  | call (client : Client)
  | lead (client : Client)
  | follow (client : Client)
  | pass (client : Client)
  | trip (client : Client)
  | retry (client : Client)
  | acquire (client : Client)
  | take (client : Client)
  | enterGuard (client : Client)
  | commit (client : Client)
  | finish (client : Client) (value : Result)
  | fail (client : Client) (timeout : Bool)
  | stop (client : Client) (timeout : Bool)
  | release (client : Client)
  | settle (client : Client)
  | unregister (client : Client)

/-- The check at `phase` has passed. -/
def passed : Phase Client Result → Option (Phase Client Result)
  | .following leader => some (.waiting leader)
  | .queued => some .acquiring
  | .guarding => some .committing
  | _ => none

/-- The check at `phase` has raised. -/
def tripped (failure : Failure Client) : Phase Client Result → Option (Phase Client Result)
  | .following _ => some (.returned (.error failure))
  | .queued => some (.settling (.error failure))
  | .guarding => some (.leaving (.error failure))
  | _ => none

/-- A wait of at most 50 ms is over. -/
def retried : Phase Client Result → Option (Phase Client Result)
  | .waiting leader => some (.following leader)
  | .acquiring => some .queued
  | _ => none

/-- What `future.result` does with a completed future: a `TimeoutError` is taken for a wait. -/
def taken (leader : Client) : Outcome Client Result → Phase Client Result
  | .error ⟨_, true⟩ => .following leader
  | outcome => .returned outcome

/-- The step relation of `materialize`. -/
inductive Step (q : Requests Client Key) (s : State Client Key Result) :
    Action Client Result → State Client Key Result → Prop
  | tick {later : Nat} : s.now ≤ later → Step q s .tick { s with now := later }
  | set {client : Client} : (q.guarded client = true → ¬ Guards (s.phase client)) →
      Step q s (.set client) { s with signalled := Function.update s.signalled client true }
  | call {client : Client} : s.phase client = .idle →
      q.deadline client = s.now + q.maxWallSeconds (q.key client) →
      Step q s (.call client) (s.move client .called)
  | lead {client : Client} : s.phase client = .called → s.inflight (q.key client) = none →
      Step q s (.lead client)
        { s.move client .queued with
          inflight := Function.update s.inflight (q.key client) (some client) }
  | follow {client leader : Client} : s.phase client = .called →
      s.inflight (q.key client) = some leader →
      Step q s (.follow client) (s.move client (.following leader))
  | pass {client : Client} {phase : Phase Client Result} : s.check q client = none →
      passed (s.phase client) = some phase → Step q s (.pass client) (s.move client phase)
  | trip {client : Client} {cause : Cause Client} {phase : Phase Client Result} :
      s.check q client = some cause → tripped (raised cause) (s.phase client) = some phase →
      Step q s (.trip client) (s.move client phase)
  | retry {client : Client} {phase : Phase Client Result} :
      retried (s.phase client) = some phase → Step q s (.retry client) (s.move client phase)
  | acquire {client : Client} : s.phase client = .acquiring → s.admission = none →
      Step q s (.acquire client) { s.move client .working with admission := some client }
  | take {client leader : Client} {outcome : Outcome Client Result} :
      s.phase client = .waiting leader → s.future leader = some outcome →
      Step q s (.take client) (s.move client (taken leader outcome))
  | enterGuard {client : Client} : s.phase client = .working →
      Step q s (.enterGuard client) (s.move client .guarding)
  | commit {client : Client} : s.phase client = .committing →
      Step q s (.commit client) (s.move client .working)
  | finish {client : Client} {value : Result} : s.phase client = .working →
      Step q s (.finish client value)
        { s.move client (.leaving (.result value)) with made := (client, value) :: s.made }
  | fail {client : Client} {timeout : Bool} :
      s.phase client = .working ∨ s.phase client = .committing →
      Step q s (.fail client timeout)
        (s.move client (.leaving (.error ⟨.failed client, timeout⟩)))
  | stop {client : Client} {cause : Cause Client} {timeout : Bool} :
      s.phase client = .working → s.check q client = some cause →
      Step q s (.stop client timeout) (s.move client (.leaving (.error ⟨cause, timeout⟩)))
  | release {client : Client} {outcome : Outcome Client Result} :
      s.phase client = .leaving outcome →
      Step q s (.release client) { s.move client (.settling outcome) with admission := none }
  | settle {client : Client} {outcome : Outcome Client Result} :
      s.phase client = .settling outcome →
      Step q s (.settle client)
        { s.move client (.unregistering outcome) with
          future := Function.update s.future client (some outcome) }
  | unregister {client : Client} {outcome : Outcome Client Result} :
      s.phase client = .unregistering outcome →
      Step q s (.unregister client)
        { s.move client (.returned outcome) with
          inflight := Function.update s.inflight (q.key client) none }

/-! ## Isolation -/

/-- `phase` waits for the future of `leader`. -/
def Follows (leader : Client) : Phase Client Result → Prop
  | .following other | .waiting other => other = leader
  | _ => False

/-- `phase` is inside `_materialize`. -/
def Materializes : Phase Client Result → Prop
  | .working | .guarding | .committing => True
  | _ => False

/-- What `leader` will complete its future with, or has. -/
def Ends (s : State Client Key Result) (leader : Client) (outcome : Outcome Client Result) : Prop :=
  s.phase leader = .leaving outcome ∨ s.phase leader = .settling outcome ∨
    s.future leader = some outcome

/-- An exception of a request that was cut short, which followers take for a failed one. -/
def Foreign : Outcome Client Result → Prop
  | .error ⟨.cancelled _, false⟩ | .error ⟨.expired _, false⟩ => True
  | _ => False

/--
No request is cut short while its future is shared, nor is the future of such a
request shared later; what is published is guarded.
-/
def Spared (q : Requests Client Key) (s : State Client Key Result) :
    Action Client Result → Prop
  | .trip client => s.signalled client = true → ∀ other, ¬ Follows client (s.phase other)
  | .stop client timeout => timeout = false → ∀ other, ¬ Follows client (s.phase other)
  | .follow client => ∀ leader outcome, s.inflight (q.key client) = some leader →
      Ends s leader outcome → ¬ Foreign outcome
  | .commit client => q.guarded client = true
  | _ => True

/-- What a request can be blamed for: its own signal, its own deadline or a failure of its key. -/
def Blames (q : Requests Client Key) (s : State Client Key Result) (client : Client) :
    Cause Client → Prop
  | .cancelled other => other = client ∧ s.signalled client = true
  | .expired other => other = client ∧ q.deadline client ≤ s.now
  | .failed other => q.key other = q.key client

/-- `outcome` is a result for the key of `client`, or an exception that `client` may raise. -/
def Justified (q : Requests Client Key) (s : State Client Key Result) (client : Client) :
    Outcome Client Result → Prop
  | .result value => ∃ leader, q.key leader = q.key client ∧ (leader, value) ∈ s.made
  | .error failure => Blames q s client failure.cause

/-- The clients of `s` do not interfere. -/
structure Isolated (q : Requests Client Key) (s : State Client Key Result) : Prop where
  single : ∀ client other, Materializes (s.phase client) → Materializes (s.phase other) →
    client = other
  silent : ∀ client next, Spared q s (.commit client) → Step q s (.commit client) next →
    s.signalled client = false
  justified : ∀ client outcome, s.phase client = .returned outcome → Justified q s client outcome
  drained : (∀ client, s.phase client = .idle ∨ ∃ outcome, s.phase client = .returned outcome) →
    (∀ key, s.inflight key = none) ∧ s.admission = none

/-! ## The invariant -/

/-- `phase` has its future in `_inflight`. -/
def Leads : Phase Client Result → Prop
  | .idle | .called | .following _ | .waiting _ | .returned _ => False
  | .queued | .acquiring | .working | .guarding | .committing | .leaving _ | .settling _
  | .unregistering _ => True

/-- `phase` holds the admission lock. -/
def Admitted : Phase Client Result → Prop
  | .working | .guarding | .committing | .leaving _ => True
  | .idle | .called | .following _ | .waiting _ | .queued | .acquiring | .settling _
  | .unregistering _ | .returned _ => False

/-- The outcome that `phase` carries is justified. -/
def Sound (q : Requests Client Key) (s : State Client Key Result) (client : Client) :
    Phase Client Result → Prop
  | .leaving outcome | .settling outcome | .unregistering outcome | .returned outcome =>
      Justified q s client outcome
  | _ => True

/-- The entries of `_inflight` are those of the leaders, and the admission lock has its owner. -/
structure Held (q : Requests Client Key) (s : State Client Key Result) : Prop where
  registered : ∀ client, Leads (s.phase client) → s.inflight (q.key client) = some client
  leads : ∀ key client, s.inflight key = some client →
    q.key client = key ∧ Leads (s.phase client)
  admitted : ∀ client, Admitted (s.phase client) ↔ s.admission = some client

structure Inv (q : Requests Client Key) (s : State Client Key Result) : Prop where
  held : Held q s
  silent : ∀ client, q.guarded client = true → s.phase client = .committing →
    s.signalled client = false
  sound : ∀ client, Sound q s client (s.phase client)
  futures : ∀ client outcome, s.future client = some outcome → Justified q s client outcome
  follows : ∀ client leader, Follows leader (s.phase client) → q.key leader = q.key client ∧
    ∀ outcome, Ends s leader outcome → ¬ Foreign outcome

variable {q : Requests Client Key} {s next : State Client Key Result}
  {action : Action Client Result}

omit [DecidableEq Key] in
theorem State.move_phase (client other : Client) (phase : Phase Client Result) :
    (s.move client phase).phase other = if other = client then phase else s.phase other := by
  simp [State.move, Function.update_apply]

/-! ## Entries and locks -/

/-- Two phases that hold the same entries and locks. -/
def SameHolds (phase phase' : Phase Client Result) : Prop :=
  (Leads phase' ↔ Leads phase) ∧ (Admitted phase' ↔ Admitted phase)

section Moves

omit [DecidableEq Client]

variable {phase phase' : Phase Client Result}

theorem passed_sameHolds (h : passed phase = some phase') : SameHolds phase phase' := by
  cases phase <;> cases h <;> simp [SameHolds, Leads, Admitted]

theorem tripped_sameHolds {failure : Failure Client} (h : tripped failure phase = some phase') :
    SameHolds phase phase' := by
  cases phase <;> cases h <;> simp [SameHolds, Leads, Admitted]

theorem retried_sameHolds (h : retried phase = some phase') : SameHolds phase phase' := by
  cases phase <;> cases h <;> simp [SameHolds, Leads, Admitted]

theorem taken_sameHolds (leader : Client) (outcome : Outcome Client Result) :
    SameHolds (.waiting leader) (taken leader outcome) := by
  unfold taken
  split <;> simp [SameHolds, Leads, Admitted]

end Moves

/-- What one step does to the phases, the entries and the locks. -/
inductive Turn (q : Requests Client Key) (s next : State Client Key Result) : Prop where
  | stays : next.phase = s.phase → next.inflight = s.inflight → next.admission = s.admission →
      Turn q s next
  | moves {client : Client} {phase : Phase Client Result} : SameHolds (s.phase client) phase →
      next.phase = Function.update s.phase client phase → next.inflight = s.inflight →
      next.admission = s.admission → Turn q s next
  | leads {client : Client} : s.phase client = .called → s.inflight (q.key client) = none →
      next.phase = Function.update s.phase client .queued →
      next.inflight = Function.update s.inflight (q.key client) (some client) →
      next.admission = s.admission → Turn q s next
  | acquires {client : Client} : s.phase client = .acquiring → s.admission = none →
      next.phase = Function.update s.phase client .working → next.inflight = s.inflight →
      next.admission = some client → Turn q s next
  | releases {client : Client} {outcome : Outcome Client Result} :
      s.phase client = .leaving outcome →
      next.phase = Function.update s.phase client (.settling outcome) →
      next.inflight = s.inflight → next.admission = none → Turn q s next
  | unregisters {client : Client} {outcome : Outcome Client Result} :
      s.phase client = .unregistering outcome →
      next.phase = Function.update s.phase client (.returned outcome) →
      next.inflight = Function.update s.inflight (q.key client) none →
      next.admission = s.admission → Turn q s next

theorem turn_of_step (h : Step q s action next) : Turn q s next := by
  cases h with
  | tick | set => exact .stays rfl rfl rfl
  | lead hphase hfree => exact .leads hphase hfree rfl rfl rfl
  | acquire hphase hfree => exact .acquires hphase hfree rfl rfl rfl
  | release hphase => exact .releases hphase rfl rfl rfl
  | unregister hphase => exact .unregisters hphase rfl rfl rfl
  | pass _ hphase => exact .moves (passed_sameHolds hphase) rfl rfl rfl
  | trip _ hphase => exact .moves (tripped_sameHolds hphase) rfl rfl rfl
  | retry hphase => exact .moves (retried_sameHolds hphase) rfl rfl rfl
  | take hphase => exact .moves (hphase ▸ taken_sameHolds _ _) rfl rfl rfl
  | fail hphase =>
      refine .moves ?_ rfl rfl rfl
      rcases hphase with hphase | hphase <;> simp [SameHolds, Leads, Admitted, hphase]
  | call hphase | follow hphase | enterGuard hphase | commit hphase | finish hphase
  | stop hphase | settle hphase =>
      refine .moves ?_ rfl rfl rfl
      simp [SameHolds, Leads, Admitted, hphase]

theorem held_step (h : Step q s action next) (hheld : Held q s) : Held q next := by
  obtain ⟨hregistered, hleads, hadmitted⟩ := hheld
  cases turn_of_step h with
  | stays hphase hinflight hadmission =>
      constructor <;> simpa only [hphase, hinflight, hadmission]
  | @moves client phase hsame hphase hinflight hadmission =>
      have hiff (other : Client) : (Leads (next.phase other) ↔ Leads (s.phase other)) ∧
          (Admitted (next.phase other) ↔ Admitted (s.phase other)) := by
        rw [hphase, Function.update_apply]
        split
        · subst_vars
          exact hsame
        · simp
      constructor <;> simpa only [hiff, hinflight, hadmission]
  | @leads client hcalled hfree hphase hinflight hadmission =>
      constructor <;> simp only [hphase, hinflight, hadmission, Function.update_apply]
      · grind [Leads]
      · grind [Leads]
      · grind [Admitted]
  | @acquires client hacquiring hfree hphase hinflight hadmission =>
      constructor <;> simp only [hphase, hinflight, hadmission, Function.update_apply]
      · grind [Leads]
      · grind [Leads]
      · grind [Admitted]
  | @releases client outcome hleaving hphase hinflight hadmission =>
      constructor <;> simp only [hphase, hinflight, hadmission, Function.update_apply]
      · grind [Leads]
      · grind [Leads]
      · grind [Admitted]
  | @unregisters client outcome hlast hphase hinflight hadmission =>
      constructor <;> simp only [hphase, hinflight, hadmission, Function.update_apply]
      · grind [Leads]
      · grind [Leads]
      · grind [Admitted]

/-! ## Outcomes -/

/-- Time, signals and results only grow. -/
structure Later (s next : State Client Key Result) : Prop where
  now : s.now ≤ next.now
  signalled : ∀ client, s.signalled client = true → next.signalled client = true
  made : ∀ entry ∈ s.made, entry ∈ next.made

theorem later_of_step (h : Step q s action next) : Later s next := by
  cases h with
  | tick hnow => exact ⟨hnow, fun _ h => h, fun _ h => h⟩
  | set =>
      refine ⟨le_rfl, fun client h => ?_, fun _ h => h⟩
      simp [Function.update_apply, h]
  | finish => exact ⟨le_rfl, fun _ h => h, fun _ h => List.mem_cons_of_mem _ h⟩
  | _ => exact ⟨le_rfl, fun _ h => h, fun _ h => h⟩

omit [DecidableEq Client] [DecidableEq Key] in
theorem Justified.mono {client : Client} {outcome : Outcome Client Result}
    (h : Justified q s client outcome) (hlater : Later s next) :
    Justified q next client outcome := by
  cases outcome with
  | result value =>
      obtain ⟨leader, hkey, hmade⟩ := h
      exact ⟨leader, hkey, hlater.made _ hmade⟩
  | error failure =>
      obtain ⟨cause, timeout⟩ := failure
      cases cause with
      | cancelled other => exact ⟨h.1, hlater.signalled _ h.2⟩
      | expired other => exact ⟨h.1, h.2.trans hlater.now⟩
      | failed other => exact h

omit [DecidableEq Client] [DecidableEq Key] in
theorem Sound.mono {client : Client} {phase : Phase Client Result} (h : Sound q s client phase)
    (hlater : Later s next) : Sound q next client phase := by
  cases phase <;> first | trivial | exact Justified.mono h hlater

omit [DecidableEq Client] [DecidableEq Key] in
/-- A check blames the client's own signal or deadline. -/
theorem blames_of_check {client : Client} {cause : Cause Client}
    (h : s.check q client = some cause) : Blames q s client cause := by
  unfold State.check at h
  split at h
  · cases h
    exact ⟨rfl, by assumption⟩
  · split at h
    · cases h
      exact ⟨rfl, by assumption⟩
    · cases h

omit [DecidableEq Client] [DecidableEq Key] in
theorem justified_of_check {client : Client} {cause : Cause Client} (timeout : Bool)
    (h : s.check q client = some cause) :
    Justified q s client (.error ⟨cause, timeout⟩ : Outcome Client Result) :=
  blames_of_check h

omit [DecidableEq Client] in
@[simp] theorem raised_cause (cause : Cause Client) : (raised cause).cause = cause := by
  cases cause <;> rfl

omit [DecidableEq Client] [DecidableEq Key] in
theorem sound_tripped {client : Client} {cause : Cause Client} {phase phase' : Phase Client Result}
    (h : s.check q client = some cause) (hphase : tripped (raised cause) phase = some phase') :
    Sound q s client phase' := by
  have hblames := blames_of_check h
  cases phase <;> cases hphase <;> simpa [Sound, Justified]

omit [DecidableEq Client] [DecidableEq Key] in
theorem sound_passed {client : Client} {phase phase' : Phase Client Result}
    (hphase : passed phase = some phase') : Sound q s client phase' := by
  cases phase <;> cases hphase <;> trivial

omit [DecidableEq Client] [DecidableEq Key] in
theorem sound_retried {client : Client} {phase phase' : Phase Client Result}
    (hphase : retried phase = some phase') : Sound q s client phase' := by
  cases phase <;> cases hphase <;> trivial

omit [DecidableEq Client] [DecidableEq Key] in
/-- A follower returns what its leader has been given, unless that is foreign. -/
theorem sound_taken {client leader : Client} {outcome : Outcome Client Result}
    (hkey : q.key leader = q.key client) (hforeign : ¬ Foreign outcome)
    (h : Justified q s leader outcome) : Sound q s client (taken leader outcome) := by
  cases outcome with
  | result value =>
      obtain ⟨maker, hmaker, hmade⟩ := h
      exact ⟨maker, hmaker.trans hkey, hmade⟩
  | error failure =>
      obtain ⟨cause, timeout⟩ := failure
      cases timeout with
      | true => trivial
      | false =>
          cases cause with
          | cancelled other => exact absurd trivial hforeign
          | expired other => exact absurd trivial hforeign
          | failed other => exact h.trans hkey

omit [DecidableEq Key] in
theorem sound_move {client : Client} {phase : Phase Client Result} (hinv : Inv q s)
    (hlater : Later s next) (hphase : next.phase = Function.update s.phase client phase)
    (h : Sound q next client phase) : ∀ other, Sound q next other (next.phase other) := by
  intro other
  rw [hphase, Function.update_apply]
  split
  · subst_vars
    exact h
  · exact (hinv.sound other).mono hlater

theorem step_sound (h : Step q s action next) (hinv : Inv q s) :
    ∀ client, Sound q next client (next.phase client) := by
  have hlater := later_of_step h
  have hown (client : Client) {phase : Phase Client Result} (hphase : s.phase client = phase) :
      Sound q next client phase := by
    rw [← hphase]
    exact (hinv.sound client).mono hlater
  cases h with
  | tick | set => exact fun client => (hinv.sound client).mono hlater
  | pass _ hphase => exact sound_move hinv hlater rfl (sound_passed hphase)
  | trip hcheck hphase =>
      exact sound_move hinv hlater rfl ((sound_tripped hcheck hphase).mono hlater)
  | retry hphase => exact sound_move hinv hlater rfl (sound_retried hphase)
  | @take client leader outcome hphase hfuture =>
      have hfollows : Follows leader (s.phase client) := by simp [hphase, Follows]
      obtain ⟨hkey, hends⟩ := hinv.follows client leader hfollows
      have htaken := sound_taken hkey (hends outcome (.inr (.inr hfuture)))
        (hinv.futures leader outcome hfuture)
      exact sound_move hinv hlater rfl (htaken.mono hlater)
  | finish => exact sound_move hinv hlater rfl ⟨_, rfl, List.mem_cons_self⟩
  | fail => exact sound_move hinv hlater rfl rfl
  | stop _ hcheck =>
      exact sound_move hinv hlater rfl ((justified_of_check _ hcheck).mono hlater)
  | release hphase | settle hphase | unregister hphase =>
      have hsound := hown _ hphase
      exact sound_move hinv hlater rfl hsound
  | call | lead | follow | acquire | enterGuard | commit =>
      exact sound_move hinv hlater rfl trivial

theorem step_futures (h : Step q s action next) (hinv : Inv q s) :
    ∀ client outcome, next.future client = some outcome → Justified q next client outcome := by
  have hlater := later_of_step h
  intro client outcome hfuture
  cases h with
  | @settle leader settled hphase =>
      simp only [Function.update_apply] at hfuture
      split at hfuture
      · cases hfuture
        have hsound := hinv.sound leader
        rw [hphase] at hsound
        subst_vars
        exact Justified.mono hsound hlater
      · exact (hinv.futures client outcome hfuture).mono hlater
  | _ => exact (hinv.futures client outcome hfuture).mono hlater

/-! ## Followers and publications -/

section Moves

omit [DecidableEq Client]

variable {phase phase' : Phase Client Result} {leader : Client}

theorem passed_follows (h : passed phase = some phase') (hfollows : Follows leader phase') :
    Follows leader phase := by
  cases phase <;> cases h <;> exact hfollows

theorem tripped_follows {failure : Failure Client} (h : tripped failure phase = some phase') :
    ¬ Follows leader phase' := by
  cases phase <;> cases h <;> simp [Follows]

theorem retried_follows (h : retried phase = some phase') (hfollows : Follows leader phase') :
    Follows leader phase := by
  cases phase <;> cases h <;> exact hfollows

theorem taken_follows {other : Client} {outcome : Outcome Client Result}
    (hfollows : Follows leader (taken other outcome)) : other = leader := by
  unfold taken at hfollows
  split at hfollows
  · exact hfollows
  · cases hfollows

theorem tripped_ne_committing {failure : Failure Client}
    (h : tripped failure phase = some phase') : phase' ≠ .committing := by
  cases phase <;> cases h <;> simp

theorem retried_ne_committing (h : retried phase = some phase') : phase' ≠ .committing := by
  cases phase <;> cases h <;> simp

theorem taken_ne_committing {outcome : Outcome Client Result} :
    taken leader outcome ≠ .committing := by
  unfold taken
  split <;> simp

end Moves

omit [DecidableEq Client] [DecidableEq Key] in
theorem signalled_of_check {client : Client} (h : s.check q client = none) :
    s.signalled client = false := by
  by_contra hsignalled
  rw [Bool.not_eq_false] at hsignalled
  simp [State.check, hsignalled] at h

theorem step_silent (h : Step q s action next) (hinv : Inv q s) :
    ∀ client, q.guarded client = true → next.phase client = .committing →
      next.signalled client = false := by
  intro client hguarded hphase
  have hsilent := hinv.silent client hguarded
  cases h with
  | tick => exact hsilent hphase
  | @set other hset =>
      have hother : client ≠ other := by
        rintro rfl
        exact hset hguarded (hphase ▸ trivial)
      simpa [Function.update_apply, hother] using hsilent hphase
  | @pass other phase hcheck hpassed =>
      rw [State.move_phase] at hphase
      split at hphase
      · subst_vars
        exact signalled_of_check hcheck
      · exact hsilent hphase
  | trip _ hmoved =>
      rw [State.move_phase] at hphase
      split at hphase
      · exact absurd hphase (tripped_ne_committing hmoved)
      · exact hsilent hphase
  | retry hmoved =>
      rw [State.move_phase] at hphase
      split at hphase
      · exact absurd hphase (retried_ne_committing hmoved)
      · exact hsilent hphase
  | take =>
      rw [State.move_phase] at hphase
      split at hphase
      · exact absurd hphase taken_ne_committing
      · exact hsilent hphase
  | _ =>
      simp only [State.move_phase] at hphase
      split at hphase
      · cases hphase
      · exact hsilent hphase

/-- Whom a client follows after a step it followed before, or `_inflight` has just named. -/
theorem follows_of_step (h : Step q s action next) {client leader : Client}
    (hfollows : Follows leader (next.phase client)) : Follows leader (s.phase client) ∨
      action = .follow client ∧ s.inflight (q.key client) = some leader := by
  cases h with
  | tick | set => exact .inl hfollows
  | @follow other other' hphase hinflight =>
      rw [State.move_phase] at hfollows
      split at hfollows
      · subst_vars
        exact .inr ⟨rfl, hinflight⟩
      · exact .inl hfollows
  | pass _ hmoved =>
      rw [State.move_phase] at hfollows
      split at hfollows
      · subst_vars
        exact .inl (passed_follows hmoved hfollows)
      · exact .inl hfollows
  | trip _ hmoved =>
      rw [State.move_phase] at hfollows
      split at hfollows
      · exact absurd hfollows (tripped_follows hmoved)
      · exact .inl hfollows
  | retry hmoved =>
      rw [State.move_phase] at hfollows
      split at hfollows
      · subst_vars
        exact .inl (retried_follows hmoved hfollows)
      · exact .inl hfollows
  | @take other other' outcome hphase =>
      rw [State.move_phase] at hfollows
      split at hfollows
      · subst_vars
        rw [hphase]
        exact .inl (taken_follows hfollows)
      · exact .inl hfollows
  | _ =>
      simp only [State.move_phase] at hfollows
      split at hfollows
      · cases hfollows
      · exact .inl hfollows

/-- `phase` is on the way to complete a future with `outcome`. -/
def Ending (outcome : Outcome Client Result) (phase : Phase Client Result) : Prop :=
  phase = .leaving outcome ∨ phase = .settling outcome

section Moves

omit [DecidableEq Client]

variable {phase phase' : Phase Client Result} {outcome : Outcome Client Result}

theorem passed_ending (h : passed phase = some phase') : ¬ Ending outcome phase' := by
  cases phase <;> cases h <;> simp [Ending]

theorem retried_ending (h : retried phase = some phase') : ¬ Ending outcome phase' := by
  cases phase <;> cases h <;> simp [Ending]

theorem taken_ending {leader : Client} {taken' : Outcome Client Result} :
    ¬ Ending outcome (taken leader taken') := by
  unfold taken
  split <;> simp [Ending]

/-- A failed check ends a leader with what it has raised. -/
theorem tripped_ending {failure : Failure Client} (h : tripped failure phase = some phase')
    (hending : Ending outcome phase') : outcome = .error failure := by
  cases phase <;> cases h <;> simp_all [Ending]

end Moves

omit [DecidableEq Key] in
theorem ends_move {client leader : Client} {phase : Phase Client Result}
    {outcome : Outcome Client Result} (hends : Ends next leader outcome)
    (hphase : next.phase = Function.update s.phase client phase)
    (hfuture : next.future = s.future) :
    Ends s leader outcome ∨ leader = client ∧ Ending outcome phase := by
  unfold Ends at hends
  rw [hphase, hfuture, Function.update_apply] at hends
  split at hends
  · rcases hends with hending | hending | hdone
    · exact .inr ⟨by assumption, .inl hending⟩
    · exact .inr ⟨by assumption, .inr hending⟩
    · exact .inl (.inr (.inr hdone))
  · exact .inl hends

/-- A foreign outcome that a leader did not have before comes to nobody who follows it. -/
theorem ends_of_step (h : Step q s action next) (hspared : Spared q s action) {leader : Client}
    {outcome : Outcome Client Result} (hends : Ends next leader outcome)
    (hforeign : Foreign outcome) :
    Ends s leader outcome ∨ ∀ other, ¬ Follows leader (s.phase other) := by
  cases h with
  | tick | set => exact .inl hends
  | @settle client settled hphase =>
      simp only [Ends, State.move_phase, Function.update_apply] at hends
      split at hends
      · subst_vars
        simp only [reduceCtorEq, Option.some.injEq, false_or] at hends
        exact .inl (.inr (.inl (hends ▸ hphase)))
      · exact .inl hends
  | @trip client cause phase hcheck hphase =>
      refine (ends_move (s := s) hends rfl rfl).imp_right ?_
      rintro ⟨rfl, hending⟩
      obtain rfl := tripped_ending hphase hending
      -- a check raises a plain exception for a signal only
      cases cause with
      | cancelled other => exact hspared (blames_of_check hcheck).2
      | expired other => exact absurd hforeign id
      | failed other => exact absurd hforeign id
  | @stop client cause timeout hphase hcheck =>
      refine (ends_move (s := s) hends rfl rfl).imp_right ?_
      rintro ⟨rfl, hending⟩
      obtain rfl : Outcome.error ⟨cause, timeout⟩ = outcome := by simpa [Ending] using hending
      cases timeout with
      | false => exact hspared rfl
      | true => cases cause <;> exact absurd hforeign id
  | @release client outcome' hphase =>
      rcases ends_move (s := s) hends rfl rfl with hends | ⟨rfl, hending⟩
      · exact .inl hends
      · obtain rfl : outcome' = outcome := by simpa [Ending] using hending
        exact .inl (.inl hphase)
  | @finish client value =>
      refine (ends_move (s := s) hends rfl rfl).imp_right ?_
      rintro ⟨rfl, hending⟩
      obtain rfl : Outcome.result value = outcome := by simpa [Ending] using hending
      exact absurd hforeign id
  | @fail client timeout =>
      refine (ends_move (s := s) hends rfl rfl).imp_right ?_
      rintro ⟨rfl, hending⟩
      obtain rfl : Outcome.error ⟨.failed leader, timeout⟩ = outcome := by
        simpa [Ending] using hending
      exact absurd hforeign id
  | pass _ hmoved =>
      exact .inl ((ends_move (s := s) hends rfl rfl).resolve_right fun h => passed_ending hmoved h.2)
  | retry hmoved =>
      exact .inl ((ends_move (s := s) hends rfl rfl).resolve_right fun h => retried_ending hmoved h.2)
  | take =>
      exact .inl ((ends_move (s := s) hends rfl rfl).resolve_right fun h => taken_ending h.2)
  | call | lead | follow | acquire | enterGuard | commit | unregister =>
      exact .inl ((ends_move (s := s) hends rfl rfl).resolve_right fun h => by simp [Ending] at h)

theorem step_follows (h : Step q s action next) (hspared : Spared q s action) (hinv : Inv q s) :
    ∀ client leader, Follows leader (next.phase client) → q.key leader = q.key client ∧
      ∀ outcome, Ends next leader outcome → ¬ Foreign outcome := by
  intro client leader hfollows
  rcases follows_of_step h hfollows with hbefore | ⟨rfl, hinflight⟩
  · obtain ⟨hkey, hclean⟩ := hinv.follows client leader hbefore
    refine ⟨hkey, fun outcome hends hforeign => ?_⟩
    rcases ends_of_step h hspared hends hforeign with hends | halone
    · exact hclean outcome hends hforeign
    · exact halone client hbefore
  · refine ⟨(hinv.held.leads _ _ hinflight).1, fun outcome hends hforeign => ?_⟩
    cases h
    rcases ends_move (s := s) hends rfl rfl with hends | ⟨-, hending⟩
    · exact hspared leader outcome hinflight hends hforeign
    · simp [Ending] at hending

theorem inv_step (h : Step q s action next) (hspared : Spared q s action) (hinv : Inv q s) :
    Inv q next where
  held := held_step h hinv.held
  silent := step_silent h hinv
  sound := step_sound h hinv
  futures := step_futures h hinv
  follows := step_follows h hspared hinv

omit [DecidableEq Client] [DecidableEq Key] in
theorem inv_initial : Inv q (initial : State Client Key Result) := by
  refine ⟨⟨?_, ?_, ?_⟩, ?_, ?_, ?_, ?_⟩ <;>
    simp [initial, Leads, Admitted, Sound, Follows]

/-- A run whose steps are all spared. -/
def SparedRun (q : Requests Client Key) :
    State Client Key Result → State Client Key Result → Prop :=
  Relation.ReflTransGen fun s next => ∃ action, Spared q s action ∧ Step q s action next

theorem isolated_of_inv (hinv : Inv q s) : Isolated q s := by
  constructor
  · intro client other hclient hother
    have hadmitted {client : Client} (h : Materializes (s.phase client)) :
        s.admission = some client := by
      refine (hinv.held.admitted client).mp ?_
      revert h
      cases s.phase client <;> simp [Materializes, Admitted]
    exact Option.some.inj ((hadmitted hclient).symm.trans (hadmitted hother))
  · intro client next hguarded hcommit
    cases hcommit with
    | commit hphase => exact hinv.silent client hguarded hphase
  · intro client outcome hphase
    have hsound := hinv.sound client
    rwa [hphase] at hsound
  · intro hall
    have hleads (client : Client) : ¬ Leads (s.phase client) ∧ ¬ Admitted (s.phase client) := by
      rcases hall client with h | ⟨outcome, h⟩ <;> simp [h, Leads, Admitted]
    constructor
    · intro key
      cases hkey : s.inflight key with
      | none => rfl
      | some client => exact absurd (hinv.held.leads key client hkey).2 (hleads client).1
    · cases hadmission : s.admission with
      | none => rfl
      | some client =>
          exact absurd ((hinv.held.admitted client).mpr hadmission) (hleads client).2

/--
In every run in which no shared request is cut short, in every state, the
clients do not interfere.
-/
theorem isolated_of_sparedRun (q : Requests Client Key) (s : State Client Key Result)
    (h : SparedRun q initial s) : Isolated q s := by
  have hinv : Inv q s := by
    induction h with
    | refl => exact inv_initial
    | tail _ hstep ih =>
        obtain ⟨action, hspared, hstep⟩ := hstep
        exact inv_step hstep hspared ih
  exact isolated_of_inv hinv

/-! ## A sample: two clients of one key -/

/-- Both clients ask for the same; `true` comes first. -/
def pair : Requests Bool Unit where
  key _ := ()
  deadline _ := 10
  maxWallSeconds _ := 10
  guarded _ := true

/-- A run of any steps. -/
def Run (q : Requests Client Key) : State Client Key Result → State Client Key Result → Prop :=
  Relation.ReflTransGen fun s next => ∃ action, Step q s action next

/-- `false` returns what `true` has made. -/
theorem pair_shares : ∃ s : State Bool Unit Unit, SparedRun pair initial s ∧
    s.phase false = .returned (.result ()) ∧ Isolated pair s := by
  have hjoined : SparedRun pair (initial : State Bool Unit Unit) _ :=
    (((Relation.ReflTransGen.refl.tail
      ⟨.call true, trivial, .call rfl rfl⟩).tail
      ⟨.lead true, trivial, .lead rfl rfl⟩).tail
      ⟨.call false, trivial, .call rfl rfl⟩).tail
      ⟨.follow false, by simp [Spared, Ends, State.move, pair, initial], .follow rfl rfl⟩
  have hmade := (((hjoined.tail
      ⟨.pass true, trivial, .pass rfl rfl⟩).tail
      ⟨.acquire true, trivial, .acquire rfl rfl⟩).tail
      ⟨.finish true (), trivial, .finish rfl⟩).tail
      ⟨.release true, trivial, .release rfl⟩
  have hshared := ((hmade.tail
      ⟨.settle true, trivial, .settle rfl⟩).tail
      ⟨.pass false, trivial, .pass rfl rfl⟩).tail
      ⟨.take false, trivial, .take rfl rfl⟩
  exact ⟨_, hshared, rfl, isolated_of_sparedRun pair _ hshared⟩

/-- `false` raises because `true` was cancelled. -/
theorem pair_interferes : ∃ s : State Bool Unit Unit, Run pair initial s ∧
    s.phase false = .returned (.error ⟨.cancelled true, false⟩) ∧
    s.signalled false = false ∧ s.now < pair.deadline false ∧ ¬ Isolated pair s := by
  have hjoined : Run pair (initial : State Bool Unit Unit) _ :=
    (((Relation.ReflTransGen.refl.tail
      ⟨.call true, .call rfl rfl⟩).tail
      ⟨.lead true, .lead rfl rfl⟩).tail
      ⟨.call false, .call rfl rfl⟩).tail
      ⟨.follow false, .follow rfl rfl⟩
  have hshared := ((((hjoined.tail
      ⟨.set true, .set fun _ => id⟩).tail
      ⟨.trip true, .trip rfl rfl⟩).tail
      ⟨.settle true, .settle rfl⟩).tail
      ⟨.pass false, .pass rfl rfl⟩).tail
      ⟨.take false, .take rfl rfl⟩
  refine ⟨_, hshared, rfl, rfl, by decide, fun hisolated => ?_⟩
  cases (hisolated.justified false _ rfl).1

end CppContextEngine.Ingestion.DeepRequests
