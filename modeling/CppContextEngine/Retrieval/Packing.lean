import Mathlib.Algebra.Order.BigOperators.Group.List
import CppContextEngine.Foundation.Worklist
import CppContextEngine.Retrieval.Hybrid

/-!
# Packing

What is packed stays inside the character budget, and a packing without the
truncated flag holds every ordered candidate with its full source.  The order
visits each candidate once, and all that lead back to a root.
-/

namespace CppContextEngine.Retrieval

open CppContextEngine.Foundation CppContextEngine.Models

namespace HybridRetriever

/-! ## Connected components -/

section Connect

variable (ranked : List Candidate)

/-- The keys of the candidates that were reached from a candidate of this key. -/
def childKeys (key : String) : List String := (byParent ranked key).map Candidate.key

theorem mem_byScore {candidates : List Candidate} {candidate : Candidate} :
    candidate ∈ byScore candidates ↔ candidate ∈ candidates :=
  List.mem_insertionSort _

theorem mem_byParent {key : String} {candidate : Candidate} :
    candidate ∈ byParent ranked key ↔
      candidate ∈ ranked ∧ isRoot candidate = false ∧ candidate.parentId = some key := by
  simp [byParent, mem_byScore]

theorem mem_childKeys {key child : String} :
    child ∈ childKeys ranked key ↔ ∃ candidate ∈ ranked, isRoot candidate = false ∧
      candidate.parentId = some key ∧ candidate.key = child := by
  simp [childKeys, mem_byParent, and_assoc]

/-- On keys the loop is a traversal. -/
theorem map_key_connect (fuel : Nat) : ∀ queue ordered : List Candidate,
    (connect ranked fuel queue ordered).map (List.map Candidate.key) =
      Foundation.traverse (childKeys ranked) fuel (queue.map Candidate.key)
        (ordered.map Candidate.key) := by
  induction fuel with
  | zero =>
      rintro (_ | ⟨candidate, queue⟩) ordered
      · rfl
      · rfl
  | succ fuel ih =>
      rintro (_ | ⟨candidate, queue⟩) ordered
      · rfl
      · unfold connect Foundation.traverse
        simp only [List.map_cons]
        split
        · exact ih queue ordered
        · rw [ih]
          simp [childKeys]

theorem connect_subset (fuel : Nat) : ∀ {queue ordered result : List Candidate},
    connect ranked fuel queue ordered = some result →
      (∀ candidate ∈ queue ++ ordered, candidate ∈ ranked) →
      ∀ candidate ∈ result, candidate ∈ ranked := by
  induction fuel with
  | zero =>
      rintro (_ | ⟨candidate, queue⟩) ordered result hresult hranked
      · cases hresult
        simpa using hranked
      · cases hresult
  | succ fuel ih =>
      rintro (_ | ⟨candidate, queue⟩) ordered result hresult hranked
      · cases hresult
        simpa using hranked
      · unfold connect at hresult
        split at hresult
        · exact ih hresult fun other hother => hranked other (List.mem_cons_of_mem _ hother)
        · refine ih hresult fun other hother => ?_
          simp only [List.mem_append, mem_byParent, List.mem_singleton] at hother
          rcases hother with (hother | hother) | hother | rfl
          · exact hranked other (by simp [hother])
          · exact hother.1
          · exact hranked other (by simp [hother])
          · exact hranked other (by simp)

variable {ranked}

theorem childKeys_subset (key : String) :
    ∀ child ∈ childKeys ranked key, child ∈ ranked.map Candidate.key := by
  intro child hchild
  obtain ⟨candidate, hmem, -, -, rfl⟩ := (mem_childKeys ranked).mp hchild
  exact List.mem_map_of_mem hmem

/-- The fuel of `connected` covers every traversal. -/
theorem stepsLeft_le (visited : List String) (root : String) :
    stepsLeft (childKeys ranked) (ranked.map Candidate.key) [root] visited ≤
      (ranked.map fun candidate => (byParent ranked candidate.key).length).sum + 1 := by
  have hsub : ((ranked.map Candidate.key).filter (· ∉ visited)).Sublist
      (ranked.map Candidate.key) := List.filter_sublist
  have hsum := (hsub.map fun key => (childKeys ranked key).length).sum_le_sum
    fun _ _ => Nat.zero_le _
  have hlengths : ((ranked.map Candidate.key).map fun key => (childKeys ranked key).length) =
      ranked.map fun candidate => (byParent ranked candidate.key).length := by
    simp [childKeys]
  rw [hlengths] at hsum
  simp only [stepsLeft, List.length_singleton]
  omega

theorem foldlM_connect {fuel : Nat}
    (hfuel : fuel = (ranked.map fun candidate => (byParent ranked candidate.key).length).sum + 1)
    (hkeys : (ranked.map Candidate.key).Nodup) (roots : List Candidate) :
    ∀ {start : List String} {ordered : List Candidate}, (∀ root ∈ roots, root ∈ ranked) →
      (∀ candidate ∈ ordered, candidate ∈ ranked) →
      Progress (childKeys ranked) start [] (ordered.map Candidate.key) →
      ∃ result, roots.foldlM (fun ordered root => connect ranked fuel [root] ordered) ordered =
          some result ∧ (∀ candidate ∈ result, candidate ∈ ranked) ∧
        Progress (childKeys ranked) (start ++ roots.map Candidate.key) []
          (result.map Candidate.key) := by
  induction roots with
  | nil => exact fun _ hordered h => ⟨_, rfl, hordered, by simpa using h⟩
  | cons root roots ih =>
      intro start ordered hroots hordered h
      have hroot := hroots root List.mem_cons_self
      obtain ⟨keys, htraverse⟩ : ∃ keys, Foundation.traverse (childKeys ranked) fuel [root.key]
          (ordered.map Candidate.key) = some keys :=
        traverse_isSome hkeys (fun key => childKeys_subset key) fuel
          (by simpa using List.mem_map_of_mem hroot) (hfuel ▸ stepsLeft_le _ _)
      have hconnect := map_key_connect ranked fuel [root] ordered
      rw [List.map_singleton, htraverse, Option.map_eq_some_iff] at hconnect
      obtain ⟨next, hnext, rfl⟩ := hconnect
      have hranked := connect_subset ranked fuel hnext (by
        simpa using ⟨hroot, hordered⟩)
      have hprogress := traverse_progress htraverse (h.restart root.key)
      obtain ⟨result, hresult, hsubset, hdone⟩ := ih
        (fun other hother => hroots other (List.mem_cons_of_mem _ hother)) hranked hprogress
      refine ⟨result, ?_, hsubset, by simpa using hdone⟩
      rw [List.foldlM_cons, hnext]
      exact hresult

/-- The candidates that lead back to a root. -/
def Rooted (ranked : List Candidate) (key : String) : Prop :=
  Leads (childKeys ranked) ((ranked.filter isRoot).map Candidate.key) key

theorem connected_spec (hkeys : (ranked.map Candidate.key).Nodup) :
    ∃ ordered, connected ranked = some ordered ∧ (ordered.map Candidate.key).Nodup ∧
      (∀ candidate ∈ ordered, candidate ∈ ranked) ∧
      ∀ key, key ∈ ordered.map Candidate.key ↔ Rooted ranked key := by
  have hroots : ∀ root ∈ byScore (ranked.filter isRoot), root ∈ ranked := fun root hroot =>
    List.mem_of_mem_filter (mem_byScore.mp hroot)
  have hinitial : Progress (childKeys ranked) [] [] ([].map Candidate.key) :=
    Progress.initial fun _ => Iff.rfl
  obtain ⟨ordered, hordered, hsubset, hprogress⟩ :=
    foldlM_connect rfl hkeys _ hroots (by simp) hinitial
  refine ⟨ordered, hordered, hprogress.nodup, hsubset, fun key => ?_⟩
  rw [hprogress.mem_iff]
  simp [Rooted, Leads, mem_byScore]

end Connect

/-! ## The character budget -/

section Budget

variable (r : HybridRetriever)

/-- The item carries what the reader gives for its symbol. -/
def FullSource (item : ContextItem) : Prop :=
  r.sourceReader.readSymbol item.hit.symbol = .ok item.sourceText

/-- What the loop makes of `state` over `ordered`. -/
structure Packed (charBudget : Int) (ordered : List Candidate) (state next : Packing) : Prop where
  bounded : (next.rendered.length : Int) ≤ charBudget
  items : ∃ items, next.items = state.items ++ items ∧
    (items.map ContextItem.hit).Sublist (ordered.map Candidate.hit) ∧
    (next.truncated = false → state.truncated = false ∧ ∀ item ∈ items, r.FullSource item)

variable {r} {charBudget : Int}

theorem Packed.skip {ordered : List Candidate} {state next : Packing} (candidate : Candidate)
    (h : r.Packed charBudget ordered state next) :
    r.Packed charBudget (candidate :: ordered) state next where
  bounded := h.bounded
  items := by
    obtain ⟨items, hitems, hsub, htruncated⟩ := h.items
    exact ⟨items, hitems, hsub.trans (List.sublist_cons_self _ _), htruncated⟩

theorem Packed.of_diagnostics {ordered : List Candidate} {state next : Packing}
    {diagnostics : List String}
    (h : r.Packed charBudget ordered { state with diagnostics := diagnostics } next) :
    r.Packed charBudget ordered state next :=
  ⟨h.bounded, h.items⟩

theorem Packed.stop {ordered : List Candidate} {state : Packing}
    (hstate : (state.rendered.length : Int) ≤ charBudget) :
    r.Packed charBudget ordered state { state with truncated := true } where
  bounded := hstate
  items := ⟨[], by simp, by simp, by simp⟩

section Add

variable {ordered : List Candidate} {state next : Packing} {candidate : Candidate}
  {reason source full : String}

@[simp] theorem Packing.length_add {cut : Bool} :
    (state.add candidate reason source full cut).rendered.length =
      state.rendered.length + full.length := by
  rw [Packing.add, String.length_append]

@[simp] theorem Packing.truncated_add {cut : Bool} :
    (state.add candidate reason source full cut).truncated = (state.truncated || cut) := rfl

/-- The whole text fits. -/
theorem Packed.push (hsource : r.sourceReader.readSymbol candidate.hit.symbol = .ok source)
    (h : r.Packed charBudget ordered (state.add candidate reason source full false) next) :
    r.Packed charBudget (candidate :: ordered) state next where
  bounded := h.bounded
  items := by
    obtain ⟨items, hitems, hsub, htruncated⟩ := h.items
    refine ⟨⟨candidate.hit, source, reason, candidate.path⟩ :: items, ?_, ?_, ?_⟩
    · exact hitems.trans (List.append_assoc _ _ _)
    · exact hsub.cons_cons _
    · intro hflag
      obtain ⟨hstate, hsources⟩ := htruncated hflag
      rw [Packing.truncated_add, Bool.or_false] at hstate
      exact ⟨hstate, List.forall_mem_cons.mpr ⟨hsource, hsources⟩⟩

/-- What is cut carries the flag. -/
theorem Packed.cut (hfits : (state.rendered.length : Int) + full.length ≤ charBudget) :
    r.Packed charBudget (candidate :: ordered) state
      (state.add candidate reason source full true) where
  bounded := by
    rw [Packing.length_add]
    omega
  items := by
    refine ⟨[⟨candidate.hit, source, reason, candidate.path⟩], rfl, ?_, fun hflag => ?_⟩
    · exact (List.nil_sublist _).cons_cons _
    · rw [Packing.truncated_add, Bool.or_true] at hflag
      cases hflag

end Add

/-- A text that is cut to the characters left, its shell and the mark included, fits. -/
theorem length_cut_le {shellStart shellEnd source mark : String} {remaining : Int}
    (havailable : ¬ remaining - shellStart.length - shellEnd.length - mark.length ≤ 0) :
    (((shellStart ++ (String.ofList (source.toList.take
      (remaining - shellStart.length - shellEnd.length - mark.length).toNat) ++ mark) ++
        shellEnd).length : Nat) : Int) ≤ remaining := by
  have htake := List.length_take_le
    (remaining - shellStart.length - shellEnd.length - mark.length).toNat source.toList
  simp only [String.length_append, String.length_ofList, Nat.cast_add] at htake ⊢
  omega

theorem packed_packLoop (maxResults : Nat) (ordered : List Candidate) : ∀ {state : Packing},
    (state.rendered.length : Int) ≤ charBudget →
      r.Packed charBudget ordered state (r.packLoop charBudget maxResults ordered state) := by
  induction ordered with
  | nil =>
      intro state hstate
      exact ⟨hstate, [], (List.append_nil _).symm, List.Sublist.refl _,
        fun hflag => ⟨hflag, fun _ hitem => absurd hitem List.not_mem_nil⟩⟩
  | cons candidate ordered ih =>
      intro state hstate
      unfold packLoop
      split
      · exact .stop hstate
      split
      · refine .skip candidate (.of_diagnostics (ih ?_))
        exact hstate
      · rename_i source hsource
        simp only
        split
        · rename_i hfull
          refine .push hsource (ih ?_)
          rw [Packing.length_add]
          omega
        · split
          · exact .stop hstate
          · rename_i havailable
            refine .cut ?_
            have hcut := @length_cut_le (r.renderShell candidate (reasonText candidate)).1
              (r.renderShell candidate (reasonText candidate)).2 source truncationMark
              (charBudget - state.rendered.length) havailable
            omega

theorem charBudget_nonneg (maxTokens : Nat) : 0 ≤ r.charBudget maxTokens := by
  have hpositive := r.config.thresholdsPositive.2
  have hfloor : 0 ≤ ⌊(maxTokens : Rat) * r.config.charsPerToken⌋ :=
    Int.floor_nonneg.mpr (by positivity)
  unfold charBudget
  split
  · exact hfloor
  · exact le_min hfloor (Int.natCast_nonneg _)

theorem charBudget_le (maxTokens : Nat) :
    (r.charBudget maxTokens : Rat) ≤ maxTokens * r.config.charsPerToken := by
  have hle : r.charBudget maxTokens ≤ ⌊(maxTokens : Rat) * r.config.charsPerToken⌋ := by
    unfold charBudget
    split
    · exact le_rfl
    · exact min_le_left _ _
  exact Int.le_floor.mp hle

/-- As many tokens as the budget allows are never exceeded by the estimate. -/
theorem ceil_length_le {maxTokens : Nat} {length : Nat}
    (h : (length : Int) ≤ r.charBudget maxTokens) :
    ⌈(length : Rat) / r.config.charsPerToken⌉ ≤ maxTokens := by
  have hpositive := r.config.thresholdsPositive.2
  rw [Int.ceil_le]
  have hlength : (length : Rat) ≤ r.charBudget maxTokens := by exact_mod_cast h
  rw [div_le_iff₀ hpositive]
  simpa using hlength.trans (charBudget_le maxTokens)

end Budget

/-! ## Whole packings -/

section Whole

variable {r : HybridRetriever} {query : String} {ranked : List Candidate}
  {maxTokens maxResults : Nat} {diagnostics : List String} {candidatesTruncated : Bool}

theorem pack_bounded :
    ((r.pack query ranked maxTokens maxResults diagnostics
      candidatesTruncated).renderedContext.length : Int) ≤ r.charBudget maxTokens := by
  have hempty : (("" : String).length : Int) ≤ r.charBudget maxTokens := by
    simpa using charBudget_nonneg maxTokens
  have hpacked := @packed_packLoop r (r.charBudget maxTokens) maxResults
    ((connected ranked).getD []) ⟨[], "", candidatesTruncated, diagnostics⟩ hempty
  exact hpacked.bounded

theorem pack_estimatedTokens : (r.pack query ranked maxTokens maxResults diagnostics
    candidatesTruncated).estimatedTokens ≤ maxTokens :=
  ceil_length_le (@pack_bounded r query ranked maxTokens maxResults diagnostics candidatesTruncated)

/-- The packing of the ordered candidates. -/
theorem pack_packed {ordered : List Candidate} (hordered : connected ranked = some ordered) :
    ∃ packed : Packing, r.Packed (r.charBudget maxTokens) ordered
        ⟨[], "", candidatesTruncated, diagnostics⟩ packed ∧
      (r.pack query ranked maxTokens maxResults diagnostics candidatesTruncated).items =
        packed.items ∧
      (r.pack query ranked maxTokens maxResults diagnostics candidatesTruncated).truncated =
        (packed.truncated || decide (packed.items.length < ordered.length)) := by
  have hempty : (("" : String).length : Int) ≤ r.charBudget maxTokens := by
    simpa using charBudget_nonneg maxTokens
  refine ⟨_, packed_packLoop maxResults ordered hempty, ?_, ?_⟩
  · unfold pack
    rw [hordered]
    rfl
  · unfold pack
    rw [hordered]
    rfl

theorem pack_nodup (hkeys : (ranked.map Candidate.key).Nodup) :
    ((r.pack query ranked maxTokens maxResults diagnostics candidatesTruncated).items.map
      fun item => evidenceKey item.hit.symbol).Nodup := by
  obtain ⟨ordered, hordered, hnodup, -, -⟩ := connected_spec hkeys
  obtain ⟨packed, hpacked, hpack, -⟩ := pack_packed hordered
  obtain ⟨items, hitems, hsub, -⟩ := hpacked.items
  have hkeysub := hsub.map fun hit : SearchHit Rat => evidenceKey hit.symbol
  rw [List.map_map, List.map_map] at hkeysub
  rw [hpack, hitems]
  exact hnodup.sublist hkeysub

/-- Without the flag nothing was cut before the packing, and every candidate is packed. -/
theorem pack_complete (hkeys : (ranked.map Candidate.key).Nodup)
    (hrooted : ∀ candidate ∈ ranked, Rooted ranked candidate.key)
    (hflag : (r.pack query ranked maxTokens maxResults diagnostics
      candidatesTruncated).truncated = false) :
    candidatesTruncated = false ∧ ∀ candidate ∈ ranked, ∃ item ∈
      (r.pack query ranked maxTokens maxResults diagnostics candidatesTruncated).items,
      evidenceKey item.hit.symbol = candidate.key ∧ r.FullSource item := by
  obtain ⟨ordered, hordered, -, -, hmem⟩ := connected_spec hkeys
  obtain ⟨packed, hpacked, hpack, htruncated⟩ := pack_packed hordered
  obtain ⟨items, hitems, hsub, hcut⟩ := hpacked.items
  rw [htruncated, Bool.or_eq_false_iff, decide_eq_false_iff_not] at hflag
  obtain ⟨hstate, hsources⟩ := hcut hflag.1
  rw [List.nil_append] at hitems
  have hall : items.map ContextItem.hit = ordered.map Candidate.hit := by
    apply hsub.eq_of_length_le
    have hlength := hflag.2
    rw [hitems] at hlength
    simp only [List.length_map]
    omega
  refine ⟨hstate, fun candidate hcandidate => ?_⟩
  obtain ⟨other, hother, hkey⟩ := List.mem_map.mp ((hmem _).mpr (hrooted candidate hcandidate))
  have hhit : other.hit ∈ items.map ContextItem.hit := hall ▸ List.mem_map_of_mem hother
  obtain ⟨item, hitem, hsame⟩ := List.mem_map.mp hhit
  rw [hpack, hitems]
  exact ⟨item, hitem, by rw [hsame]; exact hkey, hsources item hitem⟩

/-- The text of one candidate around its source. -/
def fullText (r : HybridRetriever) (candidate : Candidate) (source : String) : String :=
  (r.renderShell candidate (reasonText candidate)).1 ++ source ++
    (r.renderShell candidate (reasonText candidate)).2

/-- With room for all texts nothing is cut. -/
theorem packLoop_fits {charBudget : Int} {source : String} (ordered : List Candidate) :
    ∀ {state : Packing},
      (∀ candidate ∈ ordered, r.sourceReader.readSymbol candidate.hit.symbol = .ok source) →
      state.items.length + ordered.length ≤ maxResults →
      ((state.rendered.length + (ordered.map fun candidate =>
        (r.fullText candidate source).length).sum : Nat) : Int) ≤ charBudget →
      (r.packLoop charBudget maxResults ordered state).truncated = state.truncated ∧
        (r.packLoop charBudget maxResults ordered state).items.length =
          state.items.length + ordered.length := by
  induction ordered with
  | nil => exact fun _ _ _ => ⟨rfl, rfl⟩
  | cons candidate ordered ih =>
      intro state hread hresults hbudget
      have hsource := hread candidate List.mem_cons_self
      simp only [List.map_cons, List.sum_cons, List.length_cons] at hresults hbudget
      have hfull : (((r.renderShell candidate (reasonText candidate)).1 ++ source ++
          (r.renderShell candidate (reasonText candidate)).2).length : Int) ≤
          charBudget - state.rendered.length := by
        simp only [fullText] at hbudget
        omega
      have hlimit : ¬ maxResults ≤ state.items.length := by omega
      obtain ⟨htruncated, hlength⟩ := @ih
        (state.add candidate (reasonText candidate) source (r.fullText candidate source) false)
        (fun other hother => hread other (List.mem_cons_of_mem _ hother))
        (by simp [Packing.add]; omega)
        (by simp only [Packing.add, String.length_append]; omega)
      unfold packLoop
      simp only [hlimit, ↓reduceIte, hsource, hfull]
      refine ⟨htruncated.trans (by simp [Packing.add]), hlength.trans ?_⟩
      simp only [Packing.add, List.length_append, List.length_cons, List.length_nil]
      omega

theorem pack_fits {source : String} {ordered : List Candidate}
    (hordered : connected ranked = some ordered)
    (hread : ∀ candidate ∈ ordered,
      r.sourceReader.readSymbol candidate.hit.symbol = .ok source)
    (hresults : ordered.length ≤ maxResults)
    (hbudget : ((ordered.map fun candidate => (r.fullText candidate source).length).sum : Int) ≤
      r.charBudget maxTokens) :
    (r.pack query ranked maxTokens maxResults diagnostics candidatesTruncated).truncated =
        candidatesTruncated ∧
      (r.pack query ranked maxTokens maxResults diagnostics
        candidatesTruncated).items.length = ordered.length := by
  obtain ⟨htruncated, hlength⟩ := @packLoop_fits r maxResults (r.charBudget maxTokens) source
    ordered ⟨[], "", candidatesTruncated, diagnostics⟩ hread (by simpa using hresults)
    (by simpa using hbudget)
  rw [List.length_nil, Nat.zero_add] at hlength
  unfold pack
  simp only [hordered, Option.getD_some]
  refine ⟨?_, hlength⟩
  rw [htruncated, hlength]
  simp

end Whole

end HybridRetriever

end CppContextEngine.Retrieval
