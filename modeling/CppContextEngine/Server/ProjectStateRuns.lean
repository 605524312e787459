import CppContextEngine.Server.ProjectState

/-!
# Runs of the project state

Who holds the lock, whose worker is in a function and who owns each runtime are
invariants of the steps.  A runtime is closed once as long as no `finally`
takes a replacement that its worker may still withdraw.
-/

namespace CppContextEngine.Server.ProjectState

variable {Request : Type} [DecidableEq Request] {kind : Request → Kind} {s next : State Request}
  {action : Action Request}

/-! ## Locks and workers -/

/-- `phase` has passed the health check with the lock. -/
def Engaged : Phase Request → Prop
  | .awaiting | .publishing _ | .cleaning | .unverified => True
  | _ => False

/-- No cancellation has reached the worker. -/
def Early : Phase Request → Prop
  | .idle | .acquiring | .admitted | .awaiting => True
  | _ => False

/-- The worker is not submitted. -/
def Pending : Phase Request → Prop
  | .idle | .acquiring | .admitted => True
  | _ => False

structure Inv (kind : Request → Kind) (s : State Request) : Prop where
  lock : ∀ request, s.lock = some request ↔ Holds (s.phase request)
  done : s.done = none ↔ s.poisoned = false
  engaged : ∀ request, Engaged (s.phase request) → s.poisoned = false
  shuts : ∀ request runtime, s.phase request = .shutting runtime → kind request = .closing
  pending : ∀ request, Pending (s.phase request) → s.work request = .waiting
  busy : ∀ request, Busy (s.work request) → Engaged (s.phase request) ∨
    (∃ runtime, s.phase request = .shutting runtime) ∨ s.done = some request
  publishes : ∀ request previous, s.phase request = .publishing previous →
    Stopped (s.work request)
  disposes : ∀ request runtime, s.work request = .disposing runtime →
    s.phase request = .shutting runtime
  inUse : ∀ request runtime, s.work request = .using runtime → s.runtime = some runtime ∨
    s.done = some request ∧ s.deferred runtime = some request
  uncancelled : ∀ request, Early (s.phase request) → s.cancelled request = false

omit [DecidableEq Request] in
theorem inv_initial (usable : Bool) : Inv kind (initial usable) := by
  constructor <;> simp [initial, Holds, Engaged, Busy]

omit [DecidableEq Request] in
theorem exit_eq (k : Kind) : k = .indexing ∧ exit k = (Phase.leaving : Phase Request) ∨
    k ≠ .indexing ∧ exit k = (Phase.returned : Phase Request) := by
  cases k <;> simp [exit]

omit [DecidableEq Request] in
/-- Only the holder of the lock leaves, and its worker is out of its function. -/
theorem Leaves.spec {k : Kind} {request : Request} (h : Leaves k s request) :
    Holds (s.phase request) ∧ (s.phase request = .admitted ∨ ¬ Busy (s.work request)) := by
  cases h <;> simp_all [Holds, Busy, Stopped]

omit [DecidableEq Request] in
theorem Passes.spec {cancelled : Bool} {work work' : Work Request}
    (h : Passes cancelled work work') : Busy work ∧ work ≠ .clearing ∧ work' ≠ .waiting ∧
      work' ≠ .clearing ∧ (∀ runtime, work' ≠ .using runtime) := by
  cases h <;> simp [Busy, Stopped]

omit [DecidableEq Request] in
theorem Starts.spec {k : Kind} {phase : Phase Request} {work : Work Request}
    (h : Starts k phase work) :
    (phase = .awaiting ∨ ∃ runtime, phase = .shutting runtime) ∧ Busy work ∧
      (∀ runtime, work ≠ .using runtime) := by
  cases h <;> simp [Busy, Stopped]

omit [DecidableEq Request] in
theorem Engaged.holds {phase : Phase Request} (h : Engaged phase) : Holds phase := by
  cases phase <;> simp_all [Engaged, Holds]

theorem lock_step (h : Step kind s action next) (hinv : Inv kind s) :
    ∀ request, next.lock = some request ↔ Holds (next.phase request) := by
  have hlock := hinv.lock
  intro other
  have hexit := @exit_eq Request
  cases h with
  | leave hleaves =>
      have := hleaves.spec.1
      simp only [State.move, Function.update_apply]
      grind [Holds]
  | _ =>
      simp only [State.move, State.turn, State.shut, Function.update_apply]
      grind [Holds]

theorem done_step (h : Step kind s action next) (hinv : Inv kind s) :
    next.done = none ↔ next.poisoned = false := by
  have hdone := hinv.done
  cases h <;> simp [State.move, State.turn, State.shut, hdone]

theorem engaged_step (h : Step kind s action next) (hinv : Inv kind s) :
    ∀ request, Engaged (next.phase request) → next.poisoned = false := by
  have hlock := hinv.lock
  have hengaged := hinv.engaged
  have hholds (other : Request) : Engaged (s.phase other) → Holds (s.phase other) :=
    Engaged.holds
  intro other
  have hexit := @exit_eq Request
  cases h with
  | _ =>
      simp only [State.move, State.turn, State.shut, Function.update_apply]
      grind [Engaged, Holds]

theorem shuts_step (h : Step kind s action next) (hinv : Inv kind s) :
    ∀ request runtime, next.phase request = .shutting runtime → kind request = .closing := by
  have hshuts := hinv.shuts
  intro other runtime
  have hexit := @exit_eq Request
  cases h with
  | _ =>
      simp only [State.move, State.turn, State.shut, Function.update_apply]
      grind

theorem pending_step (h : Step kind s action next) (hinv : Inv kind s) :
    ∀ request, Pending (next.phase request) → next.work request = .waiting := by
  have hpending := hinv.pending
  intro other
  have hexit := @exit_eq Request
  cases h with
  | pass hpasses =>
      have := hpasses.spec
      simp only [State.turn, Function.update_apply]
      grind [Busy]
  | start hwaiting hstarts =>
      have := hstarts.spec
      simp only [State.turn, Function.update_apply]
      grind [Pending]
  | _ =>
      simp only [State.move, State.turn, State.shut, Function.update_apply]
      grind [Pending]

theorem busy_step (h : Step kind s action next) (hinv : Inv kind s) :
    ∀ request, Busy (next.work request) → Engaged (next.phase request) ∨
      (∃ runtime, next.phase request = .shutting runtime) ∨ next.done = some request := by
  have hbusy := hinv.busy
  have hdone := hinv.done
  have hengaged := hinv.engaged
  have hpublishes := hinv.publishes
  intro other
  have hexit := @exit_eq Request
  cases h with
  | leave hleaves =>
      have := hleaves.spec
      simp only [State.move, Function.update_apply]
      grind [Engaged, Holds]
  | pass hpasses =>
      have := hpasses.spec
      simp only [State.turn, Function.update_apply]
      grind
  | start hwaiting hstarts =>
      have := hstarts.spec
      simp only [State.turn, Function.update_apply]
      grind [Engaged]
  | _ =>
      simp only [State.move, State.turn, State.shut, Function.update_apply]
      grind [Engaged, Holds, Busy, Stopped]

theorem publishes_step (h : Step kind s action next) (hinv : Inv kind s) :
    ∀ request previous, next.phase request = .publishing previous →
      Stopped (next.work request) := by
  have hpublishes := hinv.publishes
  intro other previous
  have hexit := @exit_eq Request
  cases h with
  | pass hpasses =>
      have := hpasses.spec
      simp only [State.turn, Function.update_apply]
      grind [Busy]
  | _ =>
      simp only [State.move, State.turn, State.shut, Function.update_apply]
      grind [Stopped]

theorem disposes_step (h : Step kind s action next) (hinv : Inv kind s) :
    ∀ request runtime, next.work request = .disposing runtime →
      next.phase request = .shutting runtime := by
  have hdisposes := hinv.disposes
  intro other runtime
  cases h with
  | @leave request hleaves =>
      simp only [State.move, Function.update_apply]
      cases hleaves <;> grind [Stopped]
  | @pass request work hpasses =>
      simp only [State.turn, Function.update_apply]
      generalize hwork : s.work request = before at hpasses
      cases hpasses <;> grind
  | @start request work hwaiting hstarts =>
      simp only [State.turn, Function.update_apply]
      generalize hphase : s.phase request = phase at hstarts
      cases hstarts <;> grind
  | _ =>
      simp only [State.move, State.turn, State.shut, Function.update_apply]
      grind

theorem inUse_step (h : Step kind s action next) (hinv : Inv kind s) :
    ∀ request runtime, next.work request = .using runtime → next.runtime = some runtime ∨
      next.done = some request ∧ next.deferred runtime = some request := by
  have hbusy := hinv.busy
  have hlock := hinv.lock
  have hdone := hinv.done
  have hengaged := hinv.engaged
  have hinUse := hinv.inUse
  have hholds (other : Request) : Engaged (s.phase other) → Holds (s.phase other) :=
    Engaged.holds
  intro other runtime
  cases h with
  | pass hpasses =>
      have := hpasses.spec
      simp only [State.turn, Function.update_apply]
      grind
  | start hwaiting hstarts =>
      have := hstarts.spec
      simp only [State.turn, Function.update_apply]
      grind
  | _ =>
      simp only [State.move, State.turn, State.shut, Function.update_apply]
      grind [Engaged, Holds, Busy, Stopped]

theorem uncancelled_step (h : Step kind s action next) (hinv : Inv kind s) :
    ∀ request, Early (next.phase request) → next.cancelled request = false := by
  have huncancelled := hinv.uncancelled
  intro other
  have hexit := @exit_eq Request
  cases h with
  | _ =>
      simp only [State.move, State.turn, State.shut, Function.update_apply]
      grind [Early]

theorem inv_step (h : Step kind s action next) (hinv : Inv kind s) : Inv kind next :=
  ⟨lock_step h hinv, done_step h hinv, engaged_step h hinv, shuts_step h hinv, pending_step h hinv, busy_step h hinv,
    publishes_step h hinv, disposes_step h hinv, inUse_step h hinv, uncancelled_step h hinv⟩

/-! ## The cells of the replacements -/

/-- The worker has built nothing yet. -/
def Unbuilt : Work Request → Prop
  | .waiting | .entered | .using _ | .indexing | .indexed | .building | .disposing _ => True
  | _ => False

/-- The worker has filled its cell and not emptied it. -/
def Filled : Work Request → Prop
  | .built | .responding | .returning | .withdrawing | .clearing => True
  | _ => False

/-- The worker will close what is in its cell. -/
def Withdraws : Work Request → Prop
  | .withdrawing | .clearing => True
  | _ => False

/-- The worker is in the function of `index_project`. -/
def Indexes : Work Request → Prop
  | .indexing | .indexed | .building => True
  | work => Filled work

/-- The call no longer waits for its worker. -/
def Late : Phase Request → Prop
  | .cleaning | .unverified | .leaving | .sweeping | .returned | .swept => True
  | _ => False

structure Cells (kind : Request → Kind) (s : State Request) : Prop where
  indexes : ∀ request, Indexes (s.work request) ∨ s.built request = true →
    kind request = .indexing
  unbuilt : ∀ request, Unbuilt (s.work request) → s.built request = false
  filled : ∀ request, Filled (s.work request) → s.replacement request = true
  built : ∀ request, s.replacement request = true → s.built request = true
  withdraws : ∀ request, Withdraws (s.work request) → s.cancelled request = true
  late : ∀ request, Late (s.phase request) → Busy (s.work request) → s.cancelled request = true
  sweeps : ∀ request, s.phase request = .sweeping ∨ s.phase request = .swept →
    s.replacement request = true ∧ (s.work request = .returning ∨ Stopped (s.work request))
  returned : ∀ request, s.phase request = .returned → s.replacement request = true →
    s.work request = .built ∨ Withdraws (s.work request)
  published : ∀ request, s.published request = true → s.replacement request = false ∧
    Stopped (s.work request) ∧ s.built request = true

omit [DecidableEq Request] in
theorem cells_initial (usable : Bool) : Cells kind (initial usable) := by
  constructor <;> simp [initial, Late, Filled, Withdraws, Indexes]

theorem indexes_step (h : Step kind s action next) (hcells : Cells kind s) :
    ∀ request, Indexes (next.work request) ∨ next.built request = true →
      kind request = .indexing := by
  have hindexes := hcells.indexes
  intro other
  cases h with
  | @pass request work hpasses =>
      simp only [State.turn, Function.update_apply]
      generalize hwork : s.work request = before at hpasses
      cases hpasses <;> grind [Indexes, Filled]
  | @start request work hwaiting hstarts =>
      simp only [State.turn, Function.update_apply]
      generalize hphase : s.phase request = phase at hstarts
      cases hstarts <;> grind [Indexes, Filled]
  | _ =>
      simp only [State.move, State.turn, State.shut, Function.update_apply]
      grind [Indexes, Filled]

theorem unbuilt_step (h : Step kind s action next) (hcells : Cells kind s) :
    ∀ request, Unbuilt (next.work request) → next.built request = false := by
  have hunbuilt := hcells.unbuilt
  intro other
  cases h with
  | @pass request work hpasses =>
      simp only [State.turn, Function.update_apply]
      generalize hwork : s.work request = before at hpasses
      cases hpasses <;> grind [Unbuilt]
  | @start request work hwaiting hstarts =>
      simp only [State.turn, Function.update_apply]
      grind [Unbuilt]
  | _ =>
      simp only [State.move, State.turn, State.shut, Function.update_apply]
      grind [Unbuilt]

theorem filled_step (h : Step kind s action next) (hcells : Cells kind s) :
    ∀ request, Filled (next.work request) → next.replacement request = true := by
  have hfilled := hcells.filled
  intro other
  cases h with
  | @pass request work hpasses =>
      simp only [State.turn, Function.update_apply]
      generalize hwork : s.work request = before at hpasses
      cases hpasses <;> grind [Filled]
  | @start request work hwaiting hstarts =>
      simp only [State.turn, Function.update_apply]
      generalize hphase : s.phase request = phase at hstarts
      cases hstarts <;> grind [Filled]
  | _ =>
      simp only [State.move, State.turn, State.shut, Function.update_apply]
      grind [Filled]

theorem built_step (h : Step kind s action next) (hcells : Cells kind s) :
    ∀ request, next.replacement request = true → next.built request = true := by
  have hbuilt := hcells.built
  intro other
  cases h with
  | _ =>
      simp only [State.move, State.turn, State.shut, Function.update_apply]
      grind

theorem withdraws_step (h : Step kind s action next) (hcells : Cells kind s) :
    ∀ request, Withdraws (next.work request) → next.cancelled request = true := by
  have hwithdraws := hcells.withdraws
  intro other
  cases h with
  | @pass request work hpasses =>
      simp only [State.turn, Function.update_apply]
      generalize hwork : s.work request = before at hpasses
      cases hpasses <;> grind [Withdraws]
  | @start request work hwaiting hstarts =>
      simp only [State.turn, Function.update_apply]
      generalize hphase : s.phase request = phase at hstarts
      cases hstarts <;> grind [Withdraws]
  | _ =>
      simp only [State.move, State.turn, State.shut, Function.update_apply]
      grind [Withdraws]

theorem late_step (h : Step kind s action next) (hinv : Inv kind s) (hcells : Cells kind s) :
    ∀ request, Late (next.phase request) → Busy (next.work request) →
      next.cancelled request = true := by
  have hlate := hcells.late
  have hpending := hinv.pending
  have hpublishes := hinv.publishes
  intro other
  have hexit := @exit_eq Request
  cases h with
  | leave hleaves =>
      have := hleaves.spec
      simp only [State.move, Function.update_apply]
      grind [Late, Pending, Busy]
  | @pass request work hpasses =>
      have := hpasses.spec
      simp only [State.turn, Function.update_apply]
      grind
  | @start request work hwaiting hstarts =>
      have := hstarts.spec
      simp only [State.turn, Function.update_apply]
      grind [Late]
  | _ =>
      simp only [State.move, State.turn, State.shut, Function.update_apply]
      grind [Late, Busy, Stopped, Pending]

theorem sweeps_step (h : Step kind s action next) (hquiet : Quiet s action) (hinv : Inv kind s)
    (hcells : Cells kind s) : ∀ request, next.phase request = .sweeping ∨ next.phase request = .swept →
      next.replacement request = true ∧
        (next.work request = .returning ∨ Stopped (next.work request)) := by
  have hsweeps := hcells.sweeps
  have hpending := hinv.pending
  intro other
  have hexit := @exit_eq Request
  cases h with
  | @pass request work hpasses =>
      simp only [State.turn, Function.update_apply]
      generalize hwork : s.work request = before at hpasses
      cases hpasses <;> grind [Stopped]
  | @start request work hwaiting hstarts =>
      simp only [State.turn, Function.update_apply]
      grind [Stopped]
  | _ =>
      simp only [State.move, State.turn, State.shut, Function.update_apply]
      grind [Quiet, Stopped]

theorem returned_step (h : Step kind s action next) (hinv : Inv kind s) (hcells : Cells kind s) :
    ∀ request, next.phase request = .returned → next.replacement request = true →
      next.work request = .built ∨ Withdraws (next.work request) := by
  have hreturned := hcells.returned
  have hpending := hinv.pending
  have hlate := hcells.late
  have hbuilt := hcells.built
  have hindexes := hcells.indexes
  intro other
  have hexit := @exit_eq Request
  cases h with
  | @pass request work hpasses =>
      simp only [State.turn, Function.update_apply]
      generalize hwork : s.work request = before at hpasses
      cases hpasses <;> grind [Withdraws, Busy, Stopped, Late]
  | @start request work hwaiting hstarts =>
      have := hstarts.spec
      simp only [State.turn, Function.update_apply]
      grind
  | _ =>
      simp only [State.move, State.turn, State.shut, Function.update_apply]
      grind [Withdraws]

theorem published_step (h : Step kind s action next) (hcells : Cells kind s) :
    ∀ request, next.published request = true → next.replacement request = false ∧
      Stopped (next.work request) ∧ next.built request = true := by
  have hpublished := hcells.published
  have hbuilt := hcells.built
  intro other
  cases h with
  | @pass request work hpasses =>
      have := hpasses.spec
      simp only [State.turn, Function.update_apply]
      grind [Busy]
  | _ =>
      simp only [State.move, State.turn, State.shut, Function.update_apply]
      grind [Stopped]

theorem cells_step (h : Step kind s action next) (hquiet : Quiet s action) (hinv : Inv kind s)
    (hcells : Cells kind s) : Cells kind next :=
  ⟨indexes_step h hcells, unbuilt_step h hcells, filled_step h hcells, built_step h hcells,
    withdraws_step h hcells, late_step h hinv hcells, sweeps_step h hquiet hinv hcells,
    returned_step h hinv hcells, published_step h hcells⟩

/-! ## Owners of runtimes -/

/-- Where an open runtime is held by someone who is to close or to publish it. -/
inductive Place (Request : Type) where
  | shared
  | kept (request : Request)
  | retiring (request : Request)
  | disposing (request : Request)
  | deferred

/-- The runtime is at this place. -/
def At (s : State Request) (runtime : RuntimeId Request) : Place Request → Prop
  | .shared => s.runtime = some runtime
  | .kept request => runtime = .built request ∧ s.replacement request = true ∧
      s.work request ≠ .clearing ∧ s.phase request ≠ .swept
  | .retiring request => s.phase request = .publishing (some runtime)
  | .disposing request => s.phase request = .shutting runtime ∧ ¬ Stopped (s.work request)
  | .deferred => s.deferred runtime ≠ none

structure Owned (s : State Request) : Prop where
  unique : ∀ runtime place other, At s runtime place → At s runtime other → place = other
  opened : ∀ runtime place, At s runtime place → s.closes runtime = 0
  once : ∀ runtime, s.closes runtime ≤ 1
  unbuilt : ∀ request, s.built request = false → s.closes (.built request) = 0 ∧
    ∀ place, ¬ At s (.built request) place
  accounted : ∀ request, s.built request = true → s.published request = true ∨
    At s (.built request) (.kept request) ∨ s.closes (.built request) = 1

/-- Every place of `next` that is not new was a place of `s`, and nobody else gains one. -/
structure Carried (s next : State Request) (origin : RuntimeId Request → Place Request →
    Place Request) : Prop where
  source : ∀ runtime place, At next runtime place → At s runtime (origin runtime place)
  apart : ∀ runtime place other, At next runtime place → At next runtime other →
    origin runtime place = origin runtime other → place = other
  closes : ∀ runtime place, At next runtime place → next.closes runtime = s.closes runtime

omit [DecidableEq Request] in
theorem Carried.unique {origin : RuntimeId Request → Place Request → Place Request}
    (h : Carried s next origin) (howned : Owned s) : ∀ runtime place other,
      At next runtime place → At next runtime other → place = other :=
  fun runtime place other hplace hother => h.apart runtime place other hplace hother
    (howned.unique runtime _ _ (h.source runtime place hplace) (h.source runtime other hother))

omit [DecidableEq Request] in
theorem Carried.opened {origin : RuntimeId Request → Place Request → Place Request}
    (h : Carried s next origin) (howned : Owned s) : ∀ runtime place,
      At next runtime place → next.closes runtime = 0 :=
  fun runtime place hplace => (h.closes runtime place hplace).trans
    (howned.opened runtime _ (h.source runtime place hplace))

omit [DecidableEq Request] in
/-- Nothing moves and nothing is closed. -/
theorem Carried.still (hsource : ∀ runtime place, At next runtime place → At s runtime place)
    (hcloses : next.closes = s.closes) : Carried s next fun _ place => place :=
  ⟨hsource, fun _ _ _ _ _ => id, fun _ _ _ => by rw [hcloses]⟩

/-- Whoever closes a runtime held it before. -/
theorem Carried.close {closed : RuntimeId Request} (place : Place Request) (howned : Owned s)
    (hat : At s closed place) (hgone : ¬ At next closed place)
    (hsource : ∀ runtime place, At next runtime place → At s runtime place)
    (hcloses : next.closes = Function.update s.closes closed (s.closes closed + 1)) :
    Carried s next fun _ place => place := by
  refine ⟨hsource, fun _ _ _ _ _ => id, fun runtime other hother => ?_⟩
  have hne : runtime ≠ closed := by
    rintro rfl
    have hsame := howned.unique runtime place other hat (hsource runtime other hother)
    exact hgone (hsame ▸ hother)
  rw [hcloses, Function.update_of_ne hne]

theorem carried_step (h : Step kind s action next) (hinv : Inv kind s) (hcells : Cells kind s)
    (howned : Owned s) (hbuild : ∀ request, action ≠ .build request) :
    ∃ origin, Carried s next origin := by
  have hexit := @exit_eq Request
  have hsweeps := hcells.sweeps
  have hfilled := hcells.filled
  cases h with
  | build => exact absurd rfl (hbuild _)
  | leave hleaves =>
      have := hleaves.spec
      refine ⟨_, .still (fun runtime place hplace => ?_) rfl⟩
      cases place <;> simp only [At, State.move, Function.update_apply] at hplace ⊢ <;>
        grind [Holds]
  | @closeLater request owner runtime hphase hkind hruntime =>
      -- the shared runtime goes to a cleanup thread
      refine ⟨fun other place => match place with
        | .deferred => if other = runtime then .shared else .deferred
        | place => place, ?_, ?_, fun _ _ _ => rfl⟩
      · intro other place hplace
        cases place <;> simp only [At, State.move, Function.update_apply] at hplace ⊢ <;>
          grind [At]
      · intro other place place' hplace hplace'
        cases place <;> cases place' <;> simp only [At, State.move] at hplace hplace' ⊢ <;> grind
  | @closeNow request runtime hphase hkind hruntime =>
      -- the shared runtime goes to the worker of `close`
      refine ⟨fun other place => match place with
        | .disposing holder => if holder = request then .shared else .disposing holder
        | place => place, ?_, ?_, fun _ _ _ => rfl⟩
      · intro other place hplace
        cases place <;> simp only [At, State.move, Function.update_apply] at hplace ⊢ <;>
          grind [At]
      · intro other place place' hplace hplace'
        cases place <;> cases place' <;> simp only [At, State.move] at hplace hplace' ⊢ <;> grind
  | @publish request hphase hkind hwork hreplacement =>
      -- the replacement becomes shared, and what was shared is to be closed
      refine ⟨fun other place => match place with
        | .shared => .kept request
        | .retiring holder => if holder = request then .shared else .retiring holder
        | place => place, ?_, ?_, fun _ _ _ => rfl⟩
      · intro other place hplace
        cases place <;> simp only [At, State.move, Function.update_apply] at hplace ⊢ <;>
          grind [At]
      · intro other place place' hplace hplace'
        cases place <;> cases place' <;>
          simp only [At, State.move, Function.update_apply] at hplace hplace' ⊢ <;> grind
  | @retire request previous hphase =>
      refine ⟨_, .close (.retiring request) howned hphase ?_ ?_ rfl⟩
      · simp only [At, State.move, State.shut, Function.update_apply]
        grind
      · intro runtime place hplace
        cases place <;>
          simp only [At, State.move, State.shut, Function.update_apply] at hplace ⊢ <;> grind
  | @sweep request hphase hreplacement =>
      refine ⟨_, .close (.kept request) howned ?_ ?_ ?_ rfl⟩
      · simp only [At]
        grind [Stopped]
      · simp [At, State.move, State.shut]
      · intro runtime place hplace
        cases place <;>
          simp only [At, State.move, State.shut, Function.update_apply] at hplace ⊢ <;> grind
  | @cleanup runtime owner hdeferred =>
      refine ⟨_, .close (.deferred) howned ?_ ?_ ?_ rfl⟩
      · simp [At, hdeferred]
      · simp [At]
      · intro runtime place hplace
        cases place <;>
          simp only [At, State.shut, Function.update_apply] at hplace ⊢ <;> grind
  | @withdraw request hwork hreplacement =>
      refine ⟨_, .close (.kept request) howned ?_ ?_ ?_ rfl⟩
      · simp only [At]
        grind [Stopped]
      · simp [At, State.turn, State.shut]
      · intro runtime place hplace
        cases place <;>
          simp only [At, State.turn, State.shut, Function.update_apply] at hplace ⊢ <;>
          grind [Stopped]
  | @dispose request runtime hwork =>
      refine ⟨_, .close (.disposing request) howned ?_ ?_ ?_ rfl⟩
      · have := hinv.disposes request runtime hwork
        simp only [At]
        grind [Stopped]
      · simp [At, State.turn, State.shut, Stopped]
      · intro runtime place hplace
        cases place <;>
          simp only [At, State.turn, State.shut, Function.update_apply] at hplace ⊢ <;>
          grind [Stopped]
  | pass hpasses =>
      have := hpasses.spec
      refine ⟨_, .still (fun runtime place hplace => ?_) rfl⟩
      cases place <;> simp only [At, State.turn, Function.update_apply] at hplace ⊢ <;>
        grind [Busy, Stopped]
  | start hwaiting hstarts =>
      have := hstarts.spec
      refine ⟨_, .still (fun runtime place hplace => ?_) rfl⟩
      cases place <;> simp only [At, State.turn, Function.update_apply] at hplace ⊢ <;>
        grind [Busy, Stopped]
  | _ =>
      refine ⟨_, .still (fun runtime place hplace => ?_) rfl⟩
      cases place <;> simp only [At, State.move, State.turn, Function.update_apply] at hplace ⊢ <;>
        grind [Stopped]

/-- Only a runtime with an owner is closed. -/
theorem closes_step (h : Step kind s action next) (hinv : Inv kind s) (hcells : Cells kind s)
    (runtime : RuntimeId Request) : next.closes runtime = s.closes runtime ∨
      (∃ place, At s runtime place) ∧ next.closes runtime = s.closes runtime + 1 := by
  have hclosed (closed : RuntimeId Request) (place : Place Request) (hat : At s closed place)
      (hcloses : next.closes = Function.update s.closes closed (s.closes closed + 1)) :
      next.closes runtime = s.closes runtime ∨
        (∃ place, At s runtime place) ∧ next.closes runtime = s.closes runtime + 1 := by
    rw [hcloses, Function.update_apply]
    split
    · rename_i heq
      exact .inr ⟨⟨place, heq ▸ hat⟩, by rw [heq]⟩
    · exact .inl rfl
  have hsweeps := hcells.sweeps
  cases h with
  | @retire request previous hphase =>
      exact hclosed previous (.retiring request) hphase rfl
  | @sweep request hphase hreplacement =>
      refine hclosed (.built request) (.kept request) ?_ rfl
      simp only [At]
      grind [Stopped]
  | @cleanup closed owner hdeferred =>
      refine hclosed closed .deferred ?_ rfl
      simp [At, hdeferred]
  | @withdraw request hwork hreplacement =>
      refine hclosed (.built request) (.kept request) ?_ rfl
      simp only [At]
      grind [Stopped]
  | @dispose request closed hwork =>
      refine hclosed closed (.disposing request) ?_ rfl
      have := hinv.disposes request closed hwork
      simp only [At]
      grind [Stopped]
  | _ => exact .inl rfl

theorem built_grows (h : Step kind s action next) {request : Request}
    (hbuilt : s.built request = true) : next.built request = true := by
  cases h <;> simp [State.move, State.turn, State.shut, Function.update_apply, hbuilt]

theorem published_grows (h : Step kind s action next) {request : Request}
    (hpublished : s.published request = true) : next.published request = true := by
  cases h <;> simp [State.move, State.turn, State.shut, Function.update_apply, hpublished]

/-- A build puts its runtime into the cell of its request. -/
theorem at_of_build {request : Request} (h : Step kind s (.build request) next)
    {runtime : RuntimeId Request} {place : Place Request} (hat : At next runtime place) :
    At s runtime place ∨ runtime = .built request ∧ place = .kept request := by
  cases h with
  | build hwork =>
      cases place <;> simp only [At, State.turn, Function.update_apply] at hat ⊢ <;>
        grind [Stopped]

theorem unbuilt_closes_step (h : Step kind s action next) (hinv : Inv kind s)
    (hcells : Cells kind s) (howned : Owned s) : ∀ request, next.built request = false →
      next.closes (.built request) = 0 ∧ ∀ place, ¬ At next (.built request) place := by
  intro request hbuilt
  have hbefore : s.built request = false := by
    by_contra hne
    rw [built_grows h (by simpa using hne)] at hbuilt
    cases hbuilt
  obtain ⟨hcloses, hnowhere⟩ := howned.unbuilt request hbefore
  constructor
  · rcases closes_step h hinv hcells (.built request) with hsame | ⟨⟨place, hat⟩, -⟩
    · rw [hsame, hcloses]
    · exact absurd hat (hnowhere place)
  · intro place hat
    by_cases hbuild : ∃ builder, action = .build builder
    · obtain ⟨builder, rfl⟩ := hbuild
      rcases at_of_build h hat with hat | ⟨hsame, -⟩
      · exact hnowhere place hat
      · cases hsame
        cases h with
        | build => simp at hbuilt
    · obtain ⟨origin, hcarried⟩ := carried_step h hinv hcells howned (not_exists.mp hbuild)
      exact hnowhere _ (hcarried.source _ _ hat)

/-- A replacement leaves its cell when it is published or closed. -/
theorem kept_step (h : Step kind s action next) (hcells : Cells kind s) {request : Request}
    (hat : At s (.built request) (.kept request)) : next.published request = true ∨
      At next (.built request) (.kept request) ∨
      next.closes (.built request) = s.closes (.built request) + 1 := by
  have hsweeps := hcells.sweeps
  obtain ⟨-, hreplacement, hwork, hphase⟩ := hat
  cases h with
  | pass hpasses =>
      have := hpasses.spec
      simp only [At, State.turn, Function.update_apply]
      grind
  | @start other work hwaiting hstarts =>
      simp only [At, State.turn, Function.update_apply]
      generalize hbefore : s.phase other = phase at hstarts
      cases hstarts <;> grind
  | leave hleaves =>
      simp only [At, State.move, Function.update_apply]
      grind [exit]
  | _ =>
      simp only [At, State.move, State.turn, State.shut, Function.update_apply]
      grind [exit]

theorem accounted_step (h : Step kind s action next) (hinv : Inv kind s) (hcells : Cells kind s)
    (howned : Owned s) : ∀ request, next.built request = true → next.published request = true ∨
      At next (.built request) (.kept request) ∨ next.closes (.built request) = 1 := by
  intro request hbuilt
  by_cases hbefore : s.built request = true
  · rcases howned.accounted request hbefore with hpublished | hat | hclosed
    · exact .inl (published_grows h hpublished)
    · have hopen := howned.opened _ _ hat
      rw [← Nat.zero_add 1, ← hopen]
      exact kept_step h hcells hat
    · rcases closes_step h hinv hcells (.built request) with hsame | ⟨⟨place, hat⟩, -⟩
      · exact .inr (.inr (hsame.trans hclosed))
      · rw [howned.opened _ _ hat] at hclosed
        cases hclosed
  · have hsweeps := hcells.sweeps request
    cases h with
    | @build builder hwork =>
        simp only [Function.update_apply] at hbuilt
        simp only [At, State.turn, Function.update_apply]
        grind [Stopped]
    | _ => exact absurd hbuilt hbefore

theorem owned_step (h : Step kind s action next) (hinv : Inv kind s) (hcells : Cells kind s)
    (howned : Owned s) : Owned next := by
  have honce : ∀ runtime, next.closes runtime ≤ 1 := by
    intro runtime
    rcases closes_step h hinv hcells runtime with hsame | ⟨⟨place, hat⟩, hone⟩
    · exact hsame ▸ howned.once runtime
    · simp [hone, howned.opened _ _ hat]
  have hrest : ∀ hunique hopened, Owned next := fun hunique hopened =>
    ⟨hunique, hopened, honce, unbuilt_closes_step h hinv hcells howned,
      accounted_step h hinv hcells howned⟩
  by_cases hbuild : ∃ builder, action = .build builder
  · obtain ⟨builder, rfl⟩ := hbuild
    have hunbuilt : s.built builder = false := by
      cases h with
      | build hwork => exact hcells.unbuilt builder (by simp [hwork, Unbuilt])
    have hnowhere := (howned.unbuilt builder hunbuilt).2
    have hcloses : next.closes = s.closes := by
      cases h
      rfl
    refine hrest (fun runtime place other hat hat' => ?_) fun runtime place hat => ?_
    · rcases at_of_build h hat with hat | ⟨rfl, rfl⟩
      · rcases at_of_build h hat' with hat' | ⟨rfl, rfl⟩
        · exact howned.unique runtime place other hat hat'
        · exact absurd hat (hnowhere place)
      · rcases at_of_build h hat' with hat' | ⟨-, rfl⟩
        · exact absurd hat' (hnowhere other)
        · rfl
    · rw [hcloses]
      rcases at_of_build h hat with hat | ⟨rfl, rfl⟩
      · exact howned.opened runtime place hat
      · exact (howned.unbuilt builder hunbuilt).1
  · obtain ⟨origin, hcarried⟩ := carried_step h hinv hcells howned (not_exists.mp hbuild)
    exact hrest (hcarried.unique howned) (hcarried.opened howned)

omit [DecidableEq Request] in
theorem owned_initial (usable : Bool) : Owned (initial usable : State Request) := by
  have hat : ∀ runtime place, At (initial usable : State Request) runtime place →
      place = .shared ∧ runtime = .opened := by
    intro runtime place hat
    cases place <;> simp_all [At, initial]
  constructor
  · intro runtime place other hplace hother
    rw [(hat runtime place hplace).1, (hat runtime other hother).1]
  · exact fun _ _ _ => rfl
  · exact fun _ => Nat.zero_le 1
  · refine fun request _ => ⟨rfl, fun place hplace => ?_⟩
    cases (hat _ _ hplace).2
  · intro request hbuilt
    cases hbuilt

/-! ## Whole runs -/

omit [DecidableEq Request] in
theorem Inv.serial (hinv : Inv kind s) (hhealthy : s.poisoned = false) {request other : Request}
    (hbusy : Busy (s.work request)) (hother : Busy (s.work other)) : request = other := by
  have hdone := hinv.done.mpr hhealthy
  have hholder : ∀ holder, Busy (s.work holder) → s.lock = some holder := by
    intro holder hholder
    rw [hinv.lock]
    rcases hinv.busy holder hholder with hengaged | ⟨runtime, hphase⟩ | hlast
    · exact hengaged.holds
    · simp [hphase, Holds]
    · rw [hdone] at hlast
      cases hlast
  exact Option.some.inj ((hholder request hbusy).symm.trans (hholder other hother))

theorem Inv.replaced (hinv : Inv kind s) (h : Step kind s action next)
    (hne : next.runtime ≠ s.runtime) :
    ∃ request, s.lock = some request ∧ Replaces kind s next request := by
  have hlock := hinv.lock
  cases h with
  | @closeLater request owner runtime hphase hkind =>
      exact ⟨request, by simp [hlock, hphase, Holds], .inr ⟨hkind, rfl⟩⟩
  | @closeNow request runtime hphase hkind =>
      exact ⟨request, by simp [hlock, hphase, Holds], .inr ⟨hkind, rfl⟩⟩
  | @publish request hphase hkind hwork =>
      exact ⟨request, by simp [hlock, hphase, Holds], .inl ⟨hkind, hwork,
        hinv.uncancelled request (by simp [hphase, Early]), rfl⟩⟩
  | _ => exact absurd rfl hne

theorem Inv.halted (hinv : Inv kind s) (hpoisoned : s.poisoned = true) {request : Request}
    (h : Step kind s (.start request) next) : kind request = .closing := by
  cases h with
  | @start request work hwaiting hstarts =>
      rcases hstarts.spec.1 with hphase | ⟨runtime, hphase⟩
      · have hhealthy := hinv.engaged request (by simp [hphase, Engaged])
        rw [hpoisoned] at hhealthy
        cases hhealthy
      · exact hinv.shuts request runtime hphase

omit [DecidableEq Request] in
/-- A runtime in use is shared or waits for the thread that uses it. -/
theorem Inv.place_of_using (hinv : Inv kind s) {request : Request} {runtime : RuntimeId Request}
    (h : s.work request = .using runtime) :
    ∃ place, At s runtime place ∧ (place = .shared ∨ place = .deferred) := by
  rcases hinv.inUse request runtime h with hshared | ⟨-, hdeferred⟩
  · exact ⟨.shared, hshared, .inl rfl⟩
  · exact ⟨.deferred, by simp [At, hdeferred], .inr rfl⟩

theorem safe_of_invariants (hinv : Inv kind s) (hcells : Cells kind s) (howned : Owned s) :
    Safe kind s := by
  refine ⟨fun hhealthy request other => hinv.serial hhealthy,
    fun hpoisoned request next => hinv.halted hpoisoned, fun action next => hinv.replaced, ?_,
    howned.once, fun runtime => howned.opened runtime .shared, ?_, hinv.lock⟩
  · intro runtime hgone request hwork
    obtain ⟨place, hat, hplace⟩ := hinv.place_of_using hwork
    rcases hgone with hclosed | ⟨publisher, hphase⟩
    · exact absurd (howned.opened runtime place hat) (Nat.pos_iff_ne_zero.mp hclosed)
    · have hsame := howned.unique runtime place (.retiring publisher) hat hphase
      rcases hplace with rfl | rfl <;> cases hsame
  · intro request hended hstopped hbuilt
    rcases howned.accounted request hbuilt with hpublished | hat | hclosed
    · exact .inl hpublished
    · obtain ⟨-, hreplacement, -, hphase⟩ := hat
      have hreturned : s.phase request = .returned := by
        cases hcase : s.phase request <;> simp_all [Ended]
      have hwork := hcells.returned request hreturned hreplacement
      obtain ⟨success, hstopped⟩ := hstopped
      simp [hstopped, Withdraws] at hwork
    · exact .inr hclosed

/-- A run of any steps. -/
def Run (kind : Request → Kind) : State Request → State Request → Prop :=
  Relation.ReflTransGen fun s next => ∃ action, Step kind s action next

def QuietRun (kind : Request → Kind) : State Request → State Request → Prop :=
  Relation.ReflTransGen fun s next => ∃ action, Quiet s action ∧ Step kind s action next

/-- The lock and the workers keep their order in every run. -/
theorem inv_of_run {usable : Bool} (h : Run kind (initial usable) s) : Inv kind s := by
  induction h with
  | refl => exact inv_initial usable
  | tail _ hstep ih =>
      obtain ⟨action, hstep⟩ := hstep
      exact inv_step hstep ih

theorem safe_of_quietRun {Request : Type} [DecidableEq Request] (kind : Request → Kind)
    (usable : Bool) (s : State Request) (h : QuietRun kind (initial usable) s) : Safe kind s := by
  have hall : Inv kind s ∧ Cells kind s ∧ Owned s := by
    induction h with
    | refl => exact ⟨inv_initial usable, cells_initial usable, owned_initial usable⟩
    | tail _ hstep ih =>
        obtain ⟨action, hquiet, hstep⟩ := hstep
        obtain ⟨hinv, hcells, howned⟩ := ih
        exact ⟨inv_step hstep hinv, cells_step hstep hquiet hinv hcells,
          owned_step hstep hinv hcells howned⟩
  exact safe_of_invariants hall.1 hall.2.1 hall.2.2

/-! ## One call of `index_project` -/

def indexOnce : Unit → Kind := fun _ => .indexing

/-- The new runtime replaces the loaded one, which is closed. -/
theorem indexOnce_publishes : ∃ s : State Unit, QuietRun indexOnce (initial true) s ∧
    s.runtime = some (.built ()) ∧ s.closes .opened = 1 ∧ Safe indexOnce s := by
  have hproceeds : QuietRun indexOnce (initial true) _ :=
    ((Relation.ReflTransGen.refl.tail
      ⟨.arrive (), trivial, .arrive rfl⟩).tail
      ⟨.acquire (), trivial, .acquire rfl rfl⟩).tail
      ⟨.proceed (), trivial, .proceed rfl (by decide) rfl⟩
  have hbuilt := (((hproceeds.tail
      ⟨.start (), trivial, .start rfl (.indexing rfl)⟩).tail
      ⟨.pass (), trivial, .pass .indexed⟩).tail
      ⟨.pass (), trivial, .pass (.build rfl)⟩).tail
      ⟨.build (), trivial, .build rfl⟩
  have hdone := ((hbuilt.tail
      ⟨.pass (), trivial, .pass (.respond rfl)⟩).tail
      ⟨.pass (), trivial, .pass (.respondDone rfl)⟩).tail
      ⟨.pass (), trivial, .pass .back⟩
  have hretired := (hdone.tail
      ⟨.publish (), trivial, .publish rfl rfl rfl rfl⟩).tail
      ⟨.retire (), trivial, .retire rfl⟩
  exact ⟨_, hretired, rfl, rfl, safe_of_quietRun indexOnce true _ hretired⟩

/-- Cancelled while it builds, and poisoned: the worker and the `finally` close the same runtime. -/
theorem indexOnce_closes_twice : ∃ s : State Unit, Run indexOnce (initial true) s ∧
    s.closes (.built ()) = 2 ∧ ¬ Safe indexOnce s := by
  have hproceeds : Run indexOnce (initial true) _ :=
    ((Relation.ReflTransGen.refl.tail
      ⟨.arrive (), .arrive rfl⟩).tail
      ⟨.acquire (), .acquire rfl rfl⟩).tail
      ⟨.proceed (), .proceed rfl (by decide) rfl⟩
  have hpoisoned := (((((hproceeds.tail
      ⟨.start (), .start rfl (.indexing rfl)⟩).tail
      ⟨.pass (), .pass .indexed⟩).tail
      ⟨.pass (), .pass (.build rfl)⟩).tail
      ⟨.abandon (), .abandon rfl (by decide)⟩).tail
      ⟨.expire (), .expire rfl fun ⟨success, hstopped⟩ => by cases hstopped⟩).tail
      ⟨.poison (), .poison rfl⟩
  -- the `finally` sees the replacement before the worker withdraws it
  have hclosed := ((((hpoisoned.tail
      ⟨.build (), .build rfl⟩).tail
      ⟨.test (), .test rfl rfl⟩).tail
      ⟨.pass (), .pass (.withdrawBuilt rfl)⟩).tail
      ⟨.withdraw (), .withdraw rfl rfl⟩).tail
      ⟨.sweep (), .sweep rfl rfl⟩
  refine ⟨_, hclosed, rfl, fun hsafe => ?_⟩
  have honce := hsafe.once (.built ())
  revert honce
  decide

end CppContextEngine.Server.ProjectState
