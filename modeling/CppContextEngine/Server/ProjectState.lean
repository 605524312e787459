import Mathlib.Logic.Function.Basic
import Mathlib.Logic.Relation

/-!
# The shared project state

`ProjectServerState` as the steps of any number of requests and of their worker
threads.  A request runs in the event loop and moves between its awaits; a
worker moves on its own.  A cancellation arrives at an await or not at all.
-/

namespace CppContextEngine.Server.ProjectState

/-! ## Requests and runtimes -/

/-- What a request calls: `execute`, `execute_materialization`, `index_project` or `close`. -/
inductive Kind where
  | plain
  | materialization
  | indexing
  | closing
  deriving DecidableEq, Repr

/-- The runtime that `open` has loaded, and those that calls of `index_project` build. -/
inductive RuntimeId (Request : Type) where
  | opened
  | built (request : Request)
  deriving DecidableEq

/-- Where a request is in the event loop. -/
inductive Phase (Request : Type) where
  | idle
  /-- In `self.lock.__aenter__`. -/
  | acquiring
  /-- The lock is its own, but it has not resumed. -/
  | admitted
  /-- In `run_sync(operation)`. -/
  | awaiting
  /-- In `publish`, before the previous runtime is closed. -/
  | publishing (previous : Option (RuntimeId Request))
  /-- Cancelled, in the shielded wait for `stopped`. -/
  | cleaning
  /-- The wait has timed out. -/
  | unverified
  /-- In `run_sync(runtime.close)`. -/
  | shutting (runtime : RuntimeId Request)
  /-- Before the `finally` of `index_project`. -/
  | leaving
  /-- In that `finally`, with a replacement seen. -/
  | sweeping
  | returned
  /-- Returned, after closing its replacement. -/
  | swept
  deriving DecidableEq

/-- Where the worker thread of a request is. -/
inductive Work (Request : Type) where
  /-- The thread has not entered the function. -/
  | waiting
  /-- Before `require_runtime`. -/
  | entered
  /-- In an operation on the shared runtime. -/
  | using (runtime : RuntimeId Request)
  /-- In `run_project_index`. -/
  | indexing
  | indexed
  /-- In `build_runtime`. -/
  | building
  | built
  | responding
  /-- After the last look at `cancelled`. -/
  | returning
  /-- Before `replacement.close()`. -/
  | withdrawing
  /-- Before `replacement = None`. -/
  | clearing
  /-- In `runtime.close` for `close`. -/
  | disposing (runtime : RuntimeId Request)
  | stopped (success : Bool)
  deriving DecidableEq

def Stopped {Request : Type} (work : Work Request) : Prop := ∃ success, work = .stopped success

/-- The thread is in the function. -/
def Busy {Request : Type} (work : Work Request) : Prop := work ≠ .waiting ∧ ¬ Stopped work

structure State (Request : Type) where
  phase : Request → Phase Request
  work : Request → Work Request
  /-- The events that `index_project` and `execute_materialization` pass to their workers. -/
  cancelled : Request → Bool
  /-- The cells `replacement` that are not `None`. -/
  replacement : Request → Bool
  lock : Option Request
  runtime : Option (RuntimeId Request)
  /-- `materialization_poisoned` -/
  poisoned : Bool
  /-- The request whose `stopped` event is `_materialization_done`. -/
  done : Option Request
  /-- The runtimes that a cleanup thread will close, with the event that it waits for. -/
  deferred : RuntimeId Request → Option Request
  /-- The requests whose worker has built a runtime. -/
  built : Request → Bool
  published : Request → Bool
  /-- How often each runtime has been closed. -/
  closes : RuntimeId Request → Nat

variable {Request : Type} [DecidableEq Request]

/-- After `open`, which has loaded a runtime if there is a usable index. -/
def initial (usable : Bool) : State Request where
  phase _ := .idle
  work _ := .waiting
  cancelled _ := false
  replacement _ := false
  lock := none
  runtime := if usable then some .opened else none
  poisoned := false
  done := none
  deferred _ := none
  built _ := false
  published _ := false
  closes _ := 0

namespace State

def move (s : State Request) (request : Request) (phase : Phase Request) : State Request :=
  { s with phase := Function.update s.phase request phase }

def turn (s : State Request) (request : Request) (work : Work Request) : State Request :=
  { s with work := Function.update s.work request work }

def shut (s : State Request) (runtime : RuntimeId Request) : State Request :=
  { s with closes := Function.update s.closes runtime (s.closes runtime + 1) }

end State

/-- Where a request goes when its call ends: only `index_project` has a `finally`. -/
def exit : Kind → Phase Request
  | .indexing => .leaving
  | _ => .returned

/-! ## Steps -/

/-- The worker moves on and touches nothing shared. -/
inductive Passes (cancelled : Bool) : Work Request → Work Request → Prop
  | operated {runtime : RuntimeId Request} (success : Bool) :
      Passes cancelled (.using runtime) (.stopped success)
  | indexed : Passes cancelled .indexing .indexed
  | notIndexed : Passes cancelled .indexing (.stopped false)
  | build : cancelled = false → Passes cancelled .indexed .building
  | notBuild : cancelled = true → Passes cancelled .indexed (.stopped false)
  | notBuilt : Passes cancelled .building (.stopped false)
  | respond : cancelled = false → Passes cancelled .built .responding
  | withdrawBuilt : cancelled = true → Passes cancelled .built .withdrawing
  | respondFails : Passes cancelled .responding (.stopped false)
  | respondDone : cancelled = false → Passes cancelled .responding .returning
  | withdrawResponse : cancelled = true → Passes cancelled .responding .withdrawing
  | back : Passes cancelled .returning (.stopped true)

/-- Why the lock is released without a publication. -/
inductive Leaves (kind : Kind) (s : State Request) (request : Request) : Prop
  /-- Cancelled before it resumed with the lock. -/
  | cancelAdmitted : s.phase request = .admitted → Leaves kind s request
  | refused : s.phase request = .admitted → kind ≠ .closing → s.poisoned = true →
      Leaves kind s request
  | nothingToClose : s.phase request = .admitted → kind = .closing → s.runtime = none →
      Leaves kind s request
  /-- Cancelled at the checkpoint before the thread starts, under `abandon_on_cancel=False`. -/
  | cancelPlain : s.phase request = .awaiting → kind = .plain → s.work request = .waiting →
      Leaves kind s request
  | cancelShutting {runtime : RuntimeId Request} : s.phase request = .shutting runtime →
      s.work request = .waiting → Leaves kind s request
  | cleaned : s.phase request = .cleaning → Stopped (s.work request) → Leaves kind s request
  | resumed {success : Bool} : s.phase request = .awaiting → s.work request = .stopped success →
      (kind ≠ .indexing ∨ success = false ∨ s.replacement request = false) →
      Leaves kind s request
  | shut {runtime : RuntimeId Request} : s.phase request = .shutting runtime →
      Stopped (s.work request) → Leaves kind s request

inductive Action (Request : Type) where
  | arrive (request : Request)
  | giveUp (request : Request)
  | acquire (request : Request)
  | leave (request : Request)
  | proceed (request : Request)
  | closeLater (request : Request)
  | closeNow (request : Request)
  | abandon (request : Request)
  | expire (request : Request)
  | poison (request : Request)
  | publish (request : Request)
  | retire (request : Request)
  | test (request : Request)
  | sweep (request : Request)
  | cleanup (runtime : RuntimeId Request)
  | start (request : Request)
  | require (request : Request)
  | pass (request : Request)
  | build (request : Request)
  | withdraw (request : Request)
  | clear (request : Request)
  | dispose (request : Request)

/-- The function that the thread of a request enters. -/
inductive Starts (kind : Kind) : Phase Request → Work Request → Prop
  | indexing : kind = .indexing → Starts kind .awaiting .indexing
  | operation : kind ≠ .indexing → Starts kind .awaiting .entered
  | disposal {runtime : RuntimeId Request} : Starts kind (.shutting runtime) (.disposing runtime)

/-- The step relation of the server. -/
inductive Step (kind : Request → Kind) (s : State Request) :
    Action Request → State Request → Prop
  | arrive {request : Request} : s.phase request = .idle →
      Step kind s (.arrive request) (s.move request .acquiring)
  | giveUp {request : Request} : s.phase request = .acquiring →
      Step kind s (.giveUp request) (s.move request (exit (kind request)))
  | acquire {request : Request} : s.phase request = .acquiring → s.lock = none →
      Step kind s (.acquire request) { s.move request .admitted with lock := some request }
  | leave {request : Request} : Leaves (kind request) s request →
      Step kind s (.leave request) { s.move request (exit (kind request)) with lock := none }
  | proceed {request : Request} : s.phase request = .admitted → kind request ≠ .closing →
      s.poisoned = false → Step kind s (.proceed request) (s.move request .awaiting)
  | closeLater {request owner : Request} {runtime : RuntimeId Request} :
      s.phase request = .admitted → kind request = .closing → s.runtime = some runtime →
      s.done = some owner → ¬ Stopped (s.work owner) →
      Step kind s (.closeLater request)
        { s.move request .returned with
          lock := none
          runtime := none
          deferred := Function.update s.deferred runtime (some owner) }
  | closeNow {request : Request} {runtime : RuntimeId Request} :
      s.phase request = .admitted → kind request = .closing → s.runtime = some runtime →
      (∀ owner, s.done = some owner → Stopped (s.work owner)) →
      Step kind s (.closeNow request) { s.move request (.shutting runtime) with runtime := none }
  | abandon {request : Request} : s.phase request = .awaiting → kind request ≠ .plain →
      Step kind s (.abandon request)
        { s.move request .cleaning with
          cancelled := Function.update s.cancelled request true }
  | expire {request : Request} : s.phase request = .cleaning → ¬ Stopped (s.work request) →
      Step kind s (.expire request) (s.move request .unverified)
  | poison {request : Request} : s.phase request = .unverified →
      Step kind s (.poison request)
        { s.move request (exit (kind request)) with
          lock := none
          poisoned := true
          done := some request }
  | publish {request : Request} : s.phase request = .awaiting → kind request = .indexing →
      s.work request = .stopped true → s.replacement request = true →
      Step kind s (.publish request)
        { s.move request (.publishing s.runtime) with
          runtime := some (.built request)
          replacement := Function.update s.replacement request false
          published := Function.update s.published request true }
  | retireNone {request : Request} : s.phase request = .publishing none →
      Step kind s (.retire request) { s.move request (exit (kind request)) with lock := none }
  | retire {request : Request} {previous : RuntimeId Request} :
      s.phase request = .publishing (some previous) →
      Step kind s (.retire request)
        { (s.move request (exit (kind request))).shut previous with lock := none }
  | testNone {request : Request} : s.phase request = .leaving → s.replacement request = false →
      Step kind s (.test request) (s.move request .returned)
  | test {request : Request} : s.phase request = .leaving → s.replacement request = true →
      Step kind s (.test request) (s.move request .sweeping)
  | sweepNone {request : Request} : s.phase request = .sweeping →
      s.replacement request = false → Step kind s (.sweep request) (s.move request .returned)
  | sweep {request : Request} : s.phase request = .sweeping → s.replacement request = true →
      Step kind s (.sweep request) ((s.move request .swept).shut (.built request))
  | cleanup {runtime : RuntimeId Request} {owner : Request} :
      s.deferred runtime = some owner → Stopped (s.work owner) →
      Step kind s (.cleanup runtime)
        { s.shut runtime with deferred := Function.update s.deferred runtime none }
  | start {request : Request} {work : Work Request} : s.work request = .waiting →
      Starts (kind request) (s.phase request) work →
      Step kind s (.start request) (s.turn request work)
  | requireFails {request : Request} : s.work request = .entered →
      (s.poisoned = true ∨ s.runtime = none) →
      Step kind s (.require request) (s.turn request (.stopped false))
  | require {request : Request} {runtime : RuntimeId Request} : s.work request = .entered →
      s.poisoned = false → s.runtime = some runtime →
      Step kind s (.require request) (s.turn request (.using runtime))
  | pass {request : Request} {work : Work Request} :
      Passes (s.cancelled request) (s.work request) work →
      Step kind s (.pass request) (s.turn request work)
  | build {request : Request} : s.work request = .building →
      Step kind s (.build request)
        { s.turn request .built with
          replacement := Function.update s.replacement request true
          built := Function.update s.built request true }
  | withdrawFails {request : Request} : s.work request = .withdrawing →
      s.replacement request = false →
      Step kind s (.withdraw request) (s.turn request (.stopped false))
  | withdraw {request : Request} : s.work request = .withdrawing →
      s.replacement request = true →
      Step kind s (.withdraw request) ((s.turn request .clearing).shut (.built request))
  | clear {request : Request} : s.work request = .clearing →
      Step kind s (.clear request)
        { s.turn request (.stopped false) with
          replacement := Function.update s.replacement request false }
  | dispose {request : Request} {runtime : RuntimeId Request} :
      s.work request = .disposing runtime →
      Step kind s (.dispose request) ((s.turn request (.stopped true)).shut runtime)

/-! ## Safety -/

/-- `phase` holds the lock. -/
def Holds : Phase Request → Prop
  | .admitted | .awaiting | .publishing _ | .cleaning | .unverified | .shutting _ => True
  | .idle | .acquiring | .leaving | .sweeping | .returned | .swept => False

/-- The call is over. -/
def Ended : Phase Request → Prop
  | .returned | .swept => True
  | _ => False

/-- The runtime changes by a publication of a request that was not cancelled, or by `close`. -/
def Replaces (kind : Request → Kind) (s next : State Request) (request : Request) : Prop :=
  (kind request = .indexing ∧ s.work request = .stopped true ∧ s.cancelled request = false ∧
    next.runtime = some (.built request)) ∨
  (kind request = .closing ∧ next.runtime = none)

structure Safe (kind : Request → Kind) (s : State Request) : Prop where
  serial : s.poisoned = false → ∀ request other, Busy (s.work request) → Busy (s.work other) →
    request = other
  halted : s.poisoned = true → ∀ request next, Step kind s (.start request) next →
    kind request = .closing
  replaced : ∀ action next, Step kind s action next → next.runtime ≠ s.runtime →
    ∃ request, s.lock = some request ∧ Replaces kind s next request
  unused : ∀ runtime, (0 < s.closes runtime ∨
      ∃ request, s.phase request = .publishing (some runtime)) →
    ∀ request, s.work request ≠ .using runtime
  once : ∀ runtime, s.closes runtime ≤ 1
  current : ∀ runtime, s.runtime = some runtime → s.closes runtime = 0
  settled : ∀ request, Ended (s.phase request) → Stopped (s.work request) →
    s.built request = true → s.published request = true ∨ s.closes (.built request) = 1
  released : ∀ request, s.lock = some request ↔ Holds (s.phase request)

/-- No `finally` finds a replacement that the worker may still withdraw. -/
def Quiet (s : State Request) : Action Request → Prop
  | .test request => s.replacement request = true →
      s.work request = .returning ∨ Stopped (s.work request)
  | _ => True

end CppContextEngine.Server.ProjectState
