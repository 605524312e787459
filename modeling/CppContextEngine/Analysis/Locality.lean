import CppContextEngine.Analysis.Transfer

/-!
# What the solution of a component depends on

Two problems that show a body the same callsites, targets, callee bodies,
bindings and local facts transfer it alike in environments that agree on its
callees.  The solution of a component therefore depends on its members and
their callees only, and it changes no entry but those of its members.
-/

namespace CppContextEngine.Analysis

open CppContextEngine.Foundation CppContextEngine.Models

/-- Two environments agree on the identifiers that `ids` selects. -/
def Agree (ids : String → Prop) (current current' : Environment) : Prop :=
  ∀ id, ids id → current[id]? = current'[id]?

theorem Agree.mono {ids ids' : String → Prop} {current current' : Environment}
    (h : Agree ids current current') (hsub : ∀ id, ids' id → ids id) :
    Agree ids' current current' :=
  fun id hid => h id (hsub id hid)

/-- Two problems show `caller` the same facts. -/
structure SameView (p q : Problem) (caller : FunctionSummary) : Prop where
  cap : p.limits.maxSummaryEffects = q.limits.maxSummaryEffects
  sites : p.ownerSites caller = q.ownerSites caller
  targets : ∀ site ∈ p.ownerSites caller, p.siteTargets site = q.siteTargets site
  bodies : ∀ site ∈ p.ownerSites caller, ∀ target ∈ p.siteTargets site,
    p.calleeBodies caller target = q.calleeBodies caller target
  bindings : ∀ site ∈ p.ownerSites caller, ∀ index,
    p.binding? caller site index = q.binding? caller site index
  effects : p.localEffectsOf caller.id = q.localEffectsOf caller.id
  origins : p.localOriginsOf caller.id = q.localOriginsOf caller.id
  oversized : p.isOversized caller.id = q.isOversized caller.id

theorem SameView.refl (p : Problem) (caller : FunctionSummary) : SameView p p caller :=
  ⟨rfl, rfl, fun _ _ => rfl, fun _ _ _ _ => rfl, fun _ _ _ => rfl, rfl, rfl, rfl⟩

theorem SameView.symm {p q : Problem} {caller : FunctionSummary} (h : SameView p q caller) :
    SameView q p caller where
  cap := h.cap.symm
  sites := h.sites.symm
  targets site hsite := (h.targets site (h.sites ▸ hsite)).symm
  bodies site hsite target htarget := by
    rw [← h.sites] at hsite
    rw [← h.targets site hsite] at htarget
    exact (h.bodies site hsite target htarget).symm
  bindings site hsite index := (h.bindings site (h.sites ▸ hsite) index).symm
  effects := h.effects.symm
  origins := h.origins.symm
  oversized := h.oversized.symm

/-! ## One transfer -/

section Transfer

variable {p q : Problem} {caller : FunctionSummary}

theorem SameView.callerEdges (h : SameView p q caller) :
    p.callerEdges caller = q.callerEdges caller := by
  simp only [Problem.callerEdges, ← h.sites]
  refine List.flatMap_congr fun site hsite => ?_
  simp only [Problem.siteEdges, ← h.targets site hsite]
  refine List.flatMap_congr fun target htarget => ?_
  simp only [Problem.targetEdges, h.bodies site hsite target htarget]

theorem SameView.edgeBinding (h : SameView p q caller) {edge : CallEdge}
    (hedge : edge ∈ p.callerEdges caller) (index : Nat) :
    p.binding? caller edge.site index = q.binding? caller edge.site index :=
  h.bindings edge.site (p.mem_callerEdges.mp hedge).1 index

theorem SameView.staticReason (h : SameView p q caller) {text : String}
    (hreason : p.StaticReason caller text) : q.StaticReason caller text := by
  cases hreason with
  | own hown => exact .own hown
  | oversized hoversized => exact .oversized (h.oversized ▸ hoversized)
  | openSite hsite hopen =>
      exact .openSite (h.sites ▸ hsite) (h.targets _ hsite ▸ hopen)
  | noBody hsite htarget hnone htext =>
      exact .noBody (h.sites ▸ hsite) (h.targets _ hsite ▸ htarget)
        (h.bodies _ hsite _ htarget ▸ hnone) htext
  | ambiguous hsite htarget hambiguous =>
      exact .ambiguous (h.sites ▸ hsite) (h.targets _ hsite ▸ htarget)
        (h.bodies _ hsite _ htarget ▸ hambiguous)
  | missingBinding hedge hindex hnone =>
      exact .missingBinding (h.callerEdges ▸ hedge) hindex (h.edgeBinding hedge _ ▸ hnone)
  | incompleteBinding hedge hindex hsome hcomplete =>
      exact .incompleteBinding (h.callerEdges ▸ hedge) hindex (h.edgeBinding hedge _ ▸ hsome)
        hcomplete

theorem SameView.staticReason_iff (h : SameView p q caller) {text : String} :
    p.StaticReason caller text ↔ q.StaticReason caller text :=
  ⟨h.staticReason, h.symm.staticReason⟩

variable [Fingerprint] {current current' : Environment}

theorem SameView.edgeEffects (h : SameView p q caller) {edge : CallEdge}
    (hedge : edge ∈ p.callerEdges caller)
    (hagree : current[edge.callee.id]? = current'[edge.callee.id]?) :
    p.edgeEffects current caller edge = q.edgeEffects current' caller edge := by
  simp only [Problem.edgeEffects, Environment.effects, hagree]
  refine List.filterMap_congr fun effect _ => ?_
  simp only [Problem.propagateEffect, Problem.effectPlace, h.edgeBinding hedge]

theorem SameView.edgeOrigins (h : SameView p q caller) {edge : CallEdge}
    (hedge : edge ∈ p.callerEdges caller)
    (hagree : current[edge.callee.id]? = current'[edge.callee.id]?) :
    p.edgeOrigins current caller edge = q.edgeOrigins current' caller edge := by
  simp only [Problem.edgeOrigins, Environment.origins, hagree]
  refine List.map_congr_left fun origin _ => ?_
  have hplace : p.originPlace caller edge.site origin =
      q.originPlace caller edge.site origin := by
    simp only [Problem.originPlace, h.edgeBinding hedge]
  simp only [Problem.propagateOrigin, hplace]

/-- The callees of a body. -/
def CalleeOf (p : Problem) (caller : FunctionSummary) (id : String) : Prop :=
  ∃ edge ∈ p.callerEdges caller, edge.callee.id = id

theorem SameView.transfer (h : SameView p q caller)
    (hagree : Agree (CalleeOf p caller) current current') :
    p.transfer current caller = q.transfer current' caller := by
  have hcallee {edge : CallEdge} (hedge : edge ∈ p.callerEdges caller) :
      current[edge.callee.id]? = current'[edge.callee.id]? :=
    hagree _ ⟨edge, hedge, rfl⟩
  have heffects : (p.transferDraft current caller).effects =
      (q.transferDraft current' caller).effects := by
    rw [Problem.transferDraft_effects, Problem.transferDraft_effects]
    simp only [Problem.effectWrites, h.effects, ← h.callerEdges]
    rw [List.flatMap_congr fun edge hedge => h.edgeEffects hedge (hcallee hedge)]
  have horigins : (p.transferDraft current caller).origins =
      (q.transferDraft current' caller).origins := by
    rw [Problem.transferDraft_origins, Problem.transferDraft_origins, ← h.callerEdges]
    simp only [Problem.initialOrigins, h.origins]
    refine List.foldl_ext _ _ _ fun origins edge hedge => ?_
    simp only [Problem.originStep, h.edgeOrigins hedge (hcallee hedge)]
  have hreasons : (p.transferDraft current caller).reasons =
      (q.transferDraft current' caller).reasons := by
    refine Reasons.ext_mem fun text => ?_
    rw [Problem.mem_transferDraft, Problem.mem_transferDraft, h.staticReason_iff,
      ← h.callerEdges]
    refine or_congr_right (and_congr_right fun _ => exists_congr fun edge => ?_)
    refine and_congr_right fun hedge => ?_
    simp only [Environment.incomplete, hcallee hedge]
  simp only [Problem.transfer, heffects, horigins, hreasons, h.cap]

end Transfer

/-! ## A component -/

namespace Problem

variable [Fingerprint] (p : Problem)

theorem solveMembers_single {caller : FunctionSummary}
    (h : caller.id ∉ p.adjacency caller.id) (current : Environment) :
    p.solveMembers [caller] current = p.solveSingle caller current := by
  simp [solveMembers, h]

theorem solveMembers_cycle {members : List FunctionSummary}
    (h : ¬ ∃ caller, members = [caller] ∧ caller.id ∉ p.adjacency caller.id)
    (current : Environment) :
    p.solveMembers members current = p.solveCycle members current := by
  match members with
  | [] => rfl
  | [caller] =>
      have hmem : caller.id ∈ p.adjacency caller.id :=
        not_not.mp fun hmem => h ⟨caller, rfl, hmem⟩
      simp [solveMembers, hmem]
  | first :: second :: rest => rfl

end Problem

section Component

variable [Fingerprint] {p q : Problem} {members : List FunctionSummary}
  {current current' : Environment}

omit [Fingerprint] in
theorem foldl_insert_agree {facts facts' : FunctionSummary → Facts} {id : String}
    (hfacts : ∀ caller ∈ members, facts caller = facts' caller) :
    ∀ {current current' : Environment}, current[id]? = current'[id]? →
    (members.foldl (fun next caller => next.insert caller.id (facts caller)) current)[id]? =
      (members.foldl (fun next caller => next.insert caller.id (facts' caller)) current')[id]? := by
  induction members with
  | nil => exact fun h => h
  | cons caller members ih =>
      intro current current' h
      refine ih (fun caller hcaller => hfacts caller (List.mem_cons_of_mem _ hcaller)) ?_
      rw [Table.getElem?_insert, Table.getElem?_insert, h, hfacts caller List.mem_cons_self]

/-- `ids` covers what the members of a component are and call. -/
structure Covers (p : Problem) (members : List FunctionSummary) (ids : String → Prop) :
    Prop where
  member : ∀ caller ∈ members, ids caller.id
  callee : ∀ caller ∈ members, ∀ id, CalleeOf p caller id → ids id

variable {ids : String → Prop}

theorem transfer_agree (hview : ∀ caller ∈ members, SameView p q caller)
    (hcovers : Covers p members ids) (h : Agree ids current current')
    {caller : FunctionSummary} (hcaller : caller ∈ members) :
    p.transfer current caller = q.transfer current' caller :=
  (hview caller hcaller).transfer (h.mono (hcovers.callee caller hcaller))

theorem round_agree (hview : ∀ caller ∈ members, SameView p q caller)
    (hcovers : Covers p members ids) (h : Agree ids current current') :
    Agree ids (p.round members current) (q.round members current') :=
  fun id hid => foldl_insert_agree
    (fun _ hcaller => transfer_agree hview hcovers h hcaller) (h id hid)

theorem settled_agree (hview : ∀ caller ∈ members, SameView p q caller)
    (hcovers : Covers p members ids) (h : Agree ids current current') :
    p.settled members current = q.settled members current' := by
  rw [Bool.eq_iff_iff, Problem.settled, Problem.settled, List.all_eq_true, List.all_eq_true]
  refine forall₂_congr fun caller hcaller => ?_
  rw [h caller.id (hcovers.member caller hcaller), transfer_agree hview hcovers h hcaller]

theorem iterate_agree (hview : ∀ caller ∈ members, SameView p q caller)
    (hcovers : Covers p members ids) (limit : Nat) :
    ∀ (count : Nat) {current current' : Environment}, Agree ids current current' →
      Agree ids (p.iterate members limit count current).1
          (q.iterate members limit count current').1 ∧
        (p.iterate members limit count current).2 =
          (q.iterate members limit count current').2 := by
  induction limit with
  | zero =>
      intro count current current' h
      simp only [Problem.iterate]
      exact ⟨h, trivial⟩
  | succ limit ih =>
      intro count current current' h
      have hround := round_agree hview hcovers h
      have hsettled := settled_agree hview hcovers h
      by_cases hdone : p.settled members current = true
      · rw [Problem.iterate, Problem.iterate, if_pos hdone, if_pos (hsettled ▸ hdone)]
        exact ⟨hround, rfl⟩
      · rw [Problem.iterate, Problem.iterate, if_neg hdone, if_neg (hsettled ▸ hdone)]
        exact ih (count + 1) hround

omit [Fingerprint] in
theorem noteIterationCap_agree {caller : FunctionSummary} (hcaller : ids caller.id)
    (h : Agree ids current current') :
    Agree ids (Problem.noteIterationCap current caller)
      (Problem.noteIterationCap current' caller) := by
  intro id hid
  simp only [Problem.noteIterationCap, ← h caller.id hcaller]
  cases current[caller.id]? with
  | none => exact h id hid
  | some facts =>
      simp only
      rw [Table.getElem?_insert, Table.getElem?_insert, h id hid]

omit [Fingerprint] in
theorem foldl_noteIterationCap_agree (hmembers : ∀ caller ∈ members, ids caller.id) :
    ∀ {current current' : Environment}, Agree ids current current' →
      Agree ids (members.foldl Problem.noteIterationCap current)
        (members.foldl Problem.noteIterationCap current') := by
  induction members with
  | nil => exact fun h => h
  | cons caller members ih =>
      intro current current' h
      exact ih (fun other hother => hmembers other (List.mem_cons_of_mem _ hother))
        (noteIterationCap_agree (hmembers caller List.mem_cons_self) h)

omit [Fingerprint] in
theorem oversizedMembers_congr (hview : ∀ caller ∈ members, SameView p q caller) :
    p.oversizedMembers members = q.oversizedMembers members := by
  rw [Bool.eq_iff_iff, Problem.oversizedMembers, Problem.oversizedMembers, List.any_eq_true,
    List.any_eq_true]
  exact exists_congr fun item => and_congr_right fun hitem => by rw [(hview item hitem).oversized]

theorem solveCycle_agree (hview : ∀ caller ∈ members, SameView p q caller)
    (hlimits : p.limits = q.limits)
    (hcovers : Covers p members ids) (h : Agree ids current current') :
    Agree ids (p.solveCycle members current).1 (q.solveCycle members current').1 ∧
      (p.solveCycle members current).2 = (q.solveCycle members current').2 := by
  have hoversized := oversizedMembers_congr hview
  have hlimit : p.iterationLimit members = q.iterationLimit members := by
    simp only [Problem.iterationLimit, hoversized, hlimits]
  obtain ⟨hagree, hflags⟩ := iterate_agree hview hcovers (q.iterationLimit members) 0 h
  simp only [Problem.solveCycle, hoversized, hlimit, hflags]
  split
  · exact ⟨hagree, rfl⟩
  · exact ⟨foldl_noteIterationCap_agree hcovers.member hagree, rfl⟩

theorem solveSingle_agree {caller : FunctionSummary}
    (hview : ∀ caller' ∈ [caller], SameView p q caller') (hlimits : p.limits = q.limits)
    (hcovers : Covers p [caller] ids)
    (h : Agree ids current current') :
    Agree ids (p.solveSingle caller current).1 (q.solveSingle caller current').1 ∧
      (p.solveSingle caller current).2 = (q.solveSingle caller current').2 := by
  have htransfer := transfer_agree hview hcovers h (List.mem_singleton_self caller)
  have hown := h caller.id (hcovers.member caller (List.mem_singleton_self caller))
  simp only [Problem.solveSingle, htransfer, hown, hlimits]
  refine ⟨fun id hid => ?_, trivial⟩
  rw [Table.getElem?_insert, Table.getElem?_insert, h id hid]

theorem solveMembers_agree (hview : ∀ caller ∈ members, SameView p q caller)
    (hlimits : p.limits = q.limits)
    (hself : ∀ caller ∈ members,
      (caller.id ∈ p.adjacency caller.id ↔ caller.id ∈ q.adjacency caller.id))
    (hcovers : Covers p members ids) (h : Agree ids current current') :
    Agree ids (p.solveMembers members current).1 (q.solveMembers members current').1 ∧
      (p.solveMembers members current).2 = (q.solveMembers members current').2 := by
  by_cases hsingle : ∃ caller, members = [caller] ∧ caller.id ∉ p.adjacency caller.id
  · obtain ⟨caller, rfl, hmem⟩ := hsingle
    rw [p.solveMembers_single hmem, q.solveMembers_single
      fun hq => hmem ((hself caller (List.mem_singleton_self caller)).mpr hq)]
    exact solveSingle_agree hview hlimits hcovers h
  · rw [p.solveMembers_cycle hsingle, q.solveMembers_cycle]
    · exact solveCycle_agree hview hlimits hcovers h
    · rintro ⟨caller, rfl, hmem⟩
      exact hsingle ⟨caller, rfl, fun hp =>
        hmem ((hself caller (List.mem_singleton_self caller)).mp hp)⟩

/-! ## Frame -/

omit [Fingerprint] in
theorem foldl_insert_frame {facts : FunctionSummary → Facts} {id : String}
    (hid : id ∉ members.map FunctionSummary.id) : ∀ current : Environment,
    (members.foldl (fun next caller => next.insert caller.id (facts caller)) current)[id]? =
      current[id]? := by
  induction members with
  | nil => exact fun _ => rfl
  | cons caller members ih =>
      intro current
      rw [List.map_cons, List.mem_cons, not_or] at hid
      rw [List.foldl_cons, ih hid.2, Table.getElem?_insert, if_neg (Ne.symm hid.1)]

theorem iterate_frame {id : String} (hid : id ∉ members.map FunctionSummary.id) (limit : Nat) :
    ∀ (count : Nat) (current : Environment),
      (p.iterate members limit count current).1[id]? = current[id]? := by
  induction limit with
  | zero => exact fun _ _ => rfl
  | succ limit ih =>
      intro count current
      have hround : (p.round members current)[id]? = current[id]? := foldl_insert_frame hid current
      simp only [Problem.iterate]
      split
      · exact hround
      · rw [ih, hround]

omit [Fingerprint] in
theorem noteIterationCap_frame {caller : FunctionSummary} {id : String} (hid : id ≠ caller.id)
    (current : Environment) : (Problem.noteIterationCap current caller)[id]? = current[id]? := by
  simp only [Problem.noteIterationCap]
  split
  · rfl
  · rw [Table.getElem?_insert, if_neg (Ne.symm hid)]

omit [Fingerprint] in
theorem foldl_noteIterationCap_frame {id : String}
    (hid : id ∉ members.map FunctionSummary.id) : ∀ current : Environment,
    (members.foldl Problem.noteIterationCap current)[id]? = current[id]? := by
  induction members with
  | nil => exact fun _ => rfl
  | cons caller members ih =>
      intro current
      rw [List.map_cons, List.mem_cons, not_or] at hid
      rw [List.foldl_cons, ih hid.2, noteIterationCap_frame hid.1]

theorem solveCycle_frame {id : String} (hid : id ∉ members.map FunctionSummary.id)
    (current : Environment) : (p.solveCycle members current).1[id]? = current[id]? := by
  simp only [Problem.solveCycle]
  split
  · exact iterate_frame hid _ _ _
  · rw [foldl_noteIterationCap_frame hid, iterate_frame hid]

theorem solveMembers_frame {id : String} (hid : id ∉ members.map FunctionSummary.id)
    (current : Environment) : (p.solveMembers members current).1[id]? = current[id]? := by
  by_cases hsingle : ∃ caller, members = [caller] ∧ caller.id ∉ p.adjacency caller.id
  · obtain ⟨caller, rfl, hmem⟩ := hsingle
    have hne : caller.id ≠ id := by
      rintro rfl
      simp at hid
    rw [p.solveMembers_single hmem, Problem.solveSingle, Table.getElem?_insert, if_neg hne]
  · rw [p.solveMembers_cycle hsingle]
    exact solveCycle_frame hid current

end Component

end CppContextEngine.Analysis
