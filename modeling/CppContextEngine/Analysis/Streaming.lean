import CppContextEngine.Analysis.Locality

/-!
# A streaming run equals a retained one

A streaming run holds other facts than a retained one, but it agrees with it on
every identifier that a later component still solves or reads.  The counts it
keeps are exactly the calls that are still to be read, so what it forgets is
never asked for again.
-/

namespace CppContextEngine.Analysis

open CppContextEngine.Foundation CppContextEngine.Models

namespace Problem

/-! ## Calls out of a component -/

section Graph

variable (p : Problem) {before after : List (List String)} {component : List String}

theorem componentIndex_of_split (hsplit : p.components = before ++ component :: after)
    {id : String} (hid : id ∈ component) : p.componentIndex id = before.length := by
  have hbefore : before.findIdx (fun c => decide (id ∈ c)) = before.length := by
    refine List.findIdx_eq_length_of_false fun c hc => ?_
    have hdisjoint := (p.split_disjoint hsplit).1 c hc
    exact decide_eq_false fun hid' => hdisjoint hid' hid
  rw [componentIndex, hsplit, List.findIdx_append, hbefore]
  simp [List.findIdx_cons, hid]

theorem componentIndex_eq_iff (hsplit : p.components = before ++ component :: after)
    {caller callee : String} (hcaller : caller ∈ component) (hcallee : callee ∈ p.summaryIds) :
    p.componentIndex caller = p.componentIndex callee ↔ callee ∈ component := by
  rw [p.componentIndex_of_split hsplit hcaller]
  constructor
  · intro hindex
    obtain ⟨other, hother, hmem⟩ := (p.components_spec.covers callee).mp hcallee
    obtain ⟨before', after', hsplit'⟩ := List.append_of_mem hother
    rw [p.componentIndex_of_split hsplit' hmem] at hindex
    have hparts := List.append_inj (hsplit.symm.trans hsplit') hindex
    rw [List.cons.injEq] at hparts
    exact hparts.2.1 ▸ hmem
  · exact fun hmem => (p.componentIndex_of_split hsplit hmem).symm

theorem mem_outerCallees (hsplit : p.components = before ++ component :: after)
    {caller callee : String} (hcaller : caller ∈ component) :
    callee ∈ p.outerCallees caller ↔ callee ∈ p.adjacency caller ∧ callee ∉ component := by
  simp only [outerCallees, List.mem_filter, decide_eq_true_eq, Std.ExtTreeSet.mem_toList]
  exact and_congr_right fun hmem =>
    not_congr (p.componentIndex_eq_iff hsplit hcaller (p.adjacency_subset hmem))

theorem outerCallees_earlier (hsplit : p.components = before ++ component :: after)
    {caller callee : String} (hcaller : caller ∈ component)
    (hcallee : callee ∈ p.outerCallees caller) : ∃ c ∈ before, callee ∈ c := by
  obtain ⟨hadjacent, houter⟩ := (p.mem_outerCallees hsplit hcaller).mp hcallee
  exact (p.callee_component hsplit hcaller hadjacent).resolve_left houter

/-- The calls between components that `rest` still has to read. -/
def pending (rest : List (List String)) : List String :=
  rest.flatten.flatMap p.outerCallees

theorem pending_cons : p.pending (component :: after) =
    component.flatMap p.outerCallees ++ p.pending after := by
  simp [pending]

/-- An identifier that `rest` still solves or reads. -/
def Live (rest : List (List String)) (id : String) : Prop :=
  (∃ c ∈ rest, id ∈ c) ∨ id ∈ p.pending rest

theorem live_of_adjacency (hsplit : p.components = before ++ component :: after)
    {caller callee : String} (hcaller : caller ∈ component)
    (hcallee : callee ∈ p.adjacency caller) : p.Live (component :: after) callee := by
  by_cases hmem : callee ∈ component
  · exact .inl ⟨component, List.mem_cons_self, hmem⟩
  · refine .inr ?_
    rw [pending_cons]
    exact List.mem_append_left _ (List.mem_flatMap.mpr
      ⟨caller, hcaller, (p.mem_outerCallees hsplit hcaller).mpr ⟨hcallee, hmem⟩⟩)

theorem live_cons {id : String} (h : p.Live after id) : p.Live (component :: after) id := by
  rcases h with ⟨c, hc, hid⟩ | h
  · exact .inl ⟨c, List.mem_cons_of_mem _ hc, hid⟩
  · exact .inr (by rw [pending_cons]; exact List.mem_append_right _ h)

theorem live_covers (hsplit : p.components = before ++ component :: after) :
    Covers p (p.members component) (p.Live (component :: after)) where
  member caller hcaller :=
    .inl ⟨component, List.mem_cons_self, ((p.mem_members).mp hcaller).1⟩
  callee caller hcaller id := by
    rintro ⟨edge, hedge, rfl⟩
    obtain ⟨hmem, hsummary⟩ := (p.mem_members).mp hcaller
    exact p.live_of_adjacency hsplit hmem (p.adjacency_of_callerEdges hsummary hedge)

theorem flatten_perm : p.components.flatten.Perm p.summaryIds := by
  have hnodup : p.components.flatten.Nodup :=
    List.nodup_flatten.mpr ⟨fun c hc => p.component_nodup hc, p.components_spec.disjoint⟩
  refine (List.perm_ext_iff_of_nodup hnodup (List.nodup_dedup _)).mpr fun id => ?_
  rw [List.mem_flatten]
  exact (p.components_spec.covers id).symm

end Graph

/-! ## The counts -/

section Counts

variable (p : Problem)

theorem foldl_count (callees : List String) (id : String) : ∀ counts : String → Int,
    callees.foldl (fun counts callee => Function.update counts callee (counts callee + 1))
      counts id = counts id + callees.count id := by
  induction callees with
  | nil => simp
  | cons callee callees ih =>
      intro counts
      rw [List.foldl_cons, ih, List.count_cons]
      by_cases h : callee = id
      · subst h
        simp only [Function.update_self, beq_self_eq_true, ↓reduceIte]
        omega
      · rw [Function.update_of_ne (Ne.symm h)]
        simp [h]

theorem remainingCallers_eq (id : String) :
    p.remainingCallers id = (p.pending p.components).count id := by
  rw [remainingCallers, foldl_count, Int.zero_add, pending]
  exact congrArg _ ((p.flatten_perm.symm.flatMap_right _).count_eq id)

theorem foldl_releaseCallee_counts (callees : List String) (id : String) : ∀ held : Held,
    (callees.foldl releaseCallee held).remainingCallers id =
      held.remainingCallers id - callees.count id := by
  induction callees with
  | nil => simp
  | cons callee callees ih =>
      intro held
      rw [List.foldl_cons, ih, List.count_cons]
      by_cases h : callee = id
      · subst h
        simp only [releaseCallee, Function.update_self, beq_self_eq_true, ↓reduceIte]
        omega
      · simp only [releaseCallee, Function.update_of_ne (Ne.symm h)]
        simp [h]

theorem foldl_releaseCallee_current {callees : List String} {id : String} : ∀ {held : Held},
    (id ∉ callees ∨ 0 < (callees.foldl releaseCallee held).remainingCallers id) →
    (callees.foldl releaseCallee held).current[id]? = held.current[id]? := by
  induction callees with
  | nil => exact fun _ => rfl
  | cons callee callees ih =>
      intro held h
      rw [List.foldl_cons] at h ⊢
      rw [ih (h.imp_left fun hid hmem => hid (List.mem_cons_of_mem _ hmem))]
      by_cases heq : callee = id
      · subst heq
        have hpositive := h.resolve_left fun hid => hid List.mem_cons_self
        rw [foldl_releaseCallee_counts] at hpositive
        simp only [releaseCallee, Function.update_self] at hpositive ⊢
        rw [if_neg (by omega)]
      · simp only [releaseCallee]
        split
        · rw [Std.ExtTreeMap.getElem?_erase]
          simp [heq]
        · rfl

theorem foldl_releaseMember_counts (component : List String) : ∀ held : Held,
    (component.foldl releaseMember held).remainingCallers = held.remainingCallers := by
  induction component with
  | nil => exact fun _ => rfl
  | cons member component ih =>
      intro held
      rw [List.foldl_cons, ih, releaseMember]
      split <;> rfl

theorem foldl_releaseMember_current {component : List String} {id : String} :
    ∀ {held : Held}, (id ∉ component ∨ held.remainingCallers id ≠ 0) →
    (component.foldl releaseMember held).current[id]? = held.current[id]? := by
  induction component with
  | nil => exact fun _ => rfl
  | cons member component ih =>
      intro held h
      have hcounts : (releaseMember held member).remainingCallers = held.remainingCallers :=
        foldl_releaseMember_counts [member] held
      rw [List.foldl_cons, ih (hcounts.symm ▸
        h.imp_left fun hid hmem => hid (List.mem_cons_of_mem _ hmem))]
      unfold releaseMember
      split
      · have hne : member ≠ id := by
          rintro rfl
          exact h.elim (fun hid => hid List.mem_cons_self) fun hcount => hcount ‹_›
        simp [Std.ExtTreeMap.getElem?_erase, hne]
      · rfl

end Counts

/-! ## The simulation -/

section Simulation

variable [Fingerprint] (p : Problem) {σ : Type}

/-- The run that holds `held` instead. -/
def Run.holding (run : Run σ) (held : Held) : Run σ := { run with held := held }

/-- What a streaming run holds while a retained one is at `current` and `rest` is left. -/
structure Streams (rest : List (List String)) (current : Environment) (held : Held) :
    Prop where
  agree : Agree (p.Live rest) held.current current
  counts : ∀ id, held.remainingCallers id = (p.pending rest).count id

omit [Fingerprint] in
theorem streams_initial :
    Streams p p.components p.initialEnvironment ⟨p.initialEnvironment, p.remainingCallers⟩ where
  agree _ _ := rfl
  counts := p.remainingCallers_eq

omit [Fingerprint] in
theorem mapM_congr {α β ε : Type} {f g : α → Except ε β} {items : List α}
    (h : ∀ item ∈ items, f item = g item) : items.mapM f = items.mapM g := by
  induction items with
  | nil => rfl
  | cons item items ih =>
      rw [List.mapM_cons, List.mapM_cons, h item List.mem_cons_self,
        ih fun other hother => h other (List.mem_cons_of_mem _ hother)]

theorem callerFlows_agree {current current' : Environment} {caller : FunctionSummary}
    (h : Agree (· ∈ p.adjacency caller.id) current current') :
    p.callerFlows current caller = p.callerFlows current' caller := by
  simp only [callerFlows]
  congr 1
  refine mapM_congr fun edge hedge => ?_
  have hcallee := h edge.callee.id ((p.mem_adjacency).mpr ⟨edge, hedge, rfl⟩)
  simp only [edgeFlows, writebacks, returnLocations, Environment.effects, Environment.origins,
    hcallee]

theorem publish_holding (emit : Emitter σ) (iterationCount : Nat) {run : Run σ} {held : Held}
    {summary : FunctionSummary} (hown : held.current[summary.id]? = run.held.current[summary.id]?)
    (h : Agree (· ∈ p.adjacency summary.id) held.current run.held.current) :
    p.publish emit iterationCount (run.holding held) summary =
      (Run.holding · held) <$> p.publish emit iterationCount run summary := by
  simp only [publish, Run.holding, callerFlows_agree p h, hown]
  cases p.callerFlows run.held.current summary with
  | error e => rfl
  | ok flows =>
      cases run.held.current[summary.id]? with
      | none => rfl
      | some facts =>
          simp only [bind, Except.bind]
          cases emit run.owner (p.solvedSummary summary facts iterationCount) facts.effects
            facts.origins <;> rfl

theorem publish_held {emit : Emitter σ} {iterationCount : Nat} {run next : Run σ}
    {summary : FunctionSummary} (h : p.publish emit iterationCount run summary = .ok next) :
    next.held = run.held := by
  simp only [publish, bind, Except.bind] at h
  split at h
  · cases h
  · split at h
    · cases h
    · split at h
      · cases h
      · cases h
        rfl

theorem foldlM_publish_holding (emit : Emitter σ) (iterationCount : Nat) (held : Held)
    {ids : String → Prop} {members : List FunctionSummary}
    (hmembers : ∀ summary ∈ members,
      ids summary.id ∧ ∀ callee ∈ p.adjacency summary.id, ids callee) :
    ∀ run : Run σ, Agree ids held.current run.held.current →
      members.foldlM (p.publish emit iterationCount) (run.holding held) =
        (Run.holding · held) <$> members.foldlM (p.publish emit iterationCount) run := by
  induction members with
  | nil => exact fun _ _ => rfl
  | cons summary members ih =>
      intro run h
      obtain ⟨hown, hcallees⟩ := hmembers summary List.mem_cons_self
      rw [List.foldlM_cons, List.foldlM_cons,
        publish_holding p emit iterationCount (h summary.id hown) (h.mono hcallees)]
      cases hpublish : p.publish emit iterationCount run summary with
      | error e => rfl
      | ok next =>
          exact ih (fun other hother => hmembers other (List.mem_cons_of_mem _ hother)) next
            ((publish_held p hpublish).symm ▸ h)

omit [Fingerprint] in
/-- Forgetting what the component read last keeps the rest alive. -/
theorem evict_streams {before after : List (List String)} {component : List String}
    (hsplit : p.components = before ++ component :: after) {current : Environment} {held : Held}
    (h : Streams p (component :: after) current held) :
    Streams p after current (p.evict component held) := by
  have hcallees : ((p.members component).flatMap fun caller => p.outerCallees caller.id) =
      component.flatMap p.outerCallees := by
    have hmap := p.map_id_members (hsplit ▸ List.mem_append_right _ List.mem_cons_self)
    conv_rhs => rw [← hmap]
    rw [List.flatMap_map]
  have hcounts (id : String) : ((component.flatMap p.outerCallees).foldl releaseCallee
      held).remainingCallers id = (p.pending after).count id := by
    rw [foldl_releaseCallee_counts, h.counts, pending_cons, List.count_append]
    omega
  constructor
  · intro id hlive
    rw [← h.agree id (p.live_cons hlive), evict, hcallees]
    rcases hlive with ⟨c, hc, hid⟩ | hpending
    · have hdisjoint := p.split_disjoint hsplit
      rw [foldl_releaseMember_current (.inl fun hmem => hdisjoint.2.1 c hc hmem hid),
        foldl_releaseCallee_current (.inl fun hmem => ?_)]
      obtain ⟨caller, hcaller, hcallee⟩ := List.mem_flatMap.mp hmem
      obtain ⟨earlier, hearlier, hmem⟩ := p.outerCallees_earlier hsplit hcaller hcallee
      exact hdisjoint.2.2 earlier hearlier c hc hmem hid
    · have hpositive : 0 < (p.pending after).count id := List.count_pos_iff.mpr hpending
      rw [foldl_releaseMember_current (.inr ?_), foldl_releaseCallee_current (.inr ?_)]
      · rw [hcounts]
        omega
      · rw [hcounts]
        omega
  · intro id
    rw [evict, hcallees, foldl_releaseMember_counts, hcounts]

theorem foldlM_publish_held {emit : Emitter σ} {iterationCount : Nat}
    {members : List FunctionSummary} : ∀ {run next : Run σ},
    members.foldlM (p.publish emit iterationCount) run = .ok next → next.held = run.held := by
  induction members with
  | nil =>
      intro run next h
      cases h
      rfl
  | cons summary members ih =>
      intro run next h
      rw [List.foldlM_cons] at h
      cases hpublish : p.publish emit iterationCount run summary with
      | error e =>
          rw [hpublish] at h
          cases h
      | ok middle =>
          rw [hpublish] at h
          exact (ih h).trans (publish_held p hpublish)

/-- A retained run moves through the environments of the solved components. -/
theorem solveComponent_current {emit : Emitter σ} {run next : Run σ} {component : List String}
    (h : p.solveComponent emit true run component = .ok next) :
    next.held.current = (p.solveMembers (p.members component) run.held.current).1 := by
  simp only [solveComponent] at h
  cases hpublish : (p.members component).foldlM (p.publish emit
      (p.solveMembers (p.members component) run.held.current).2) { run with held := { run.held with
        current := (p.solveMembers (p.members component) run.held.current).1 } } with
  | error e =>
      rw [hpublish] at h
      cases h
  | ok middle =>
      rw [hpublish] at h
      cases h
      simpa using congrArg Held.current (foldlM_publish_held p hpublish)

/-- One component of a streaming run and of a retained one. -/
theorem solveComponent_streams (emit : Emitter σ) {before after : List (List String)}
    {component : List String} (hsplit : p.components = before ++ component :: after)
    {run : Run σ} {held : Held}
    (h : Streams p (component :: after) run.held.current held) :
    ∃ held', Streams p after
        (p.solveMembers (p.members component) run.held.current).1 held' ∧
      p.solveComponent emit false (run.holding held) component =
        (Run.holding · held') <$> p.solveComponent emit true run component := by
  have hcovers := p.live_covers hsplit
  have hview : ∀ caller ∈ p.members component, SameView p p caller :=
    fun caller _ => SameView.refl p caller
  obtain ⟨hagree, hcount⟩ := solveMembers_agree hview rfl (fun _ _ => Iff.rfl) hcovers h.agree
  have hsolved : Streams p (component :: after)
      (p.solveMembers (p.members component) run.held.current).1
      { held with current := (p.solveMembers (p.members component) held.current).1 } :=
    ⟨hagree, h.counts⟩
  refine ⟨_, evict_streams p hsplit hsolved, ?_⟩
  have hmembers : ∀ summary ∈ p.members component, p.Live (component :: after) summary.id ∧
      ∀ callee ∈ p.adjacency summary.id, p.Live (component :: after) callee :=
    fun summary hsummary => ⟨hcovers.member summary hsummary, fun _ hcallee =>
      p.live_of_adjacency hsplit ((p.mem_members).mp hsummary).1 hcallee⟩
  have hpublish := foldlM_publish_holding p emit
    (p.solveMembers (p.members component) run.held.current).2
    { held with current := (p.solveMembers (p.members component) held.current).1 } hmembers
    (run.holding { run.held with
      current := (p.solveMembers (p.members component) run.held.current).1 }) hagree
  simp only [solveComponent, Run.holding, hcount] at hpublish ⊢
  rw [hpublish]
  cases (p.members component).foldlM (p.publish emit
    (p.solveMembers (p.members component) run.held.current).2) { run with held := { run.held with
      current := (p.solveMembers (p.members component) run.held.current).1 } } <;> rfl

theorem foldlM_solveComponent_streams (emit : Emitter σ) (after : List (List String)) :
    ∀ (before : List (List String)) (run : Run σ) {held : Held},
      p.components = before ++ after → Streams p after run.held.current held →
      ∃ held', after.foldlM (p.solveComponent emit false) (run.holding held) =
        (Run.holding · held') <$> after.foldlM (p.solveComponent emit true) run := by
  induction after with
  | nil => exact fun before run held _ _ => ⟨held, rfl⟩
  | cons component after ih =>
      intro before run held hsplit h
      obtain ⟨held', hstreams, hstep⟩ := solveComponent_streams p emit hsplit h
      rw [List.foldlM_cons, List.foldlM_cons, hstep]
      cases hnext : p.solveComponent emit true run component with
      | error e => exact ⟨held', rfl⟩
      | ok next =>
          have hcurrent : next.held.current =
              (p.solveMembers (p.members component) run.held.current).1 :=
            solveComponent_current p hnext
          rw [← hcurrent] at hstreams
          exact ih (before ++ [component]) next (by rw [hsplit, List.append_assoc]; rfl) hstreams

end Simulation

end Problem

end CppContextEngine.Analysis
