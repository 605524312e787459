import Mathlib.Data.List.Basic
import Mathlib.Logic.Function.Iterate

/-!
# Sweeps over the blocks of a graph

Every block's value is computed from the values of the others, one block after
another, until a whole sweep changes nothing or the sweeps run out.  A block
that was not visited has no value.
-/

namespace CppContextEngine.Foundation

section Sweep

variable {β σ : Type} [DecidableEq β] [DecidableEq σ]

abbrev Values (β σ : Type) := β → Option σ

/-- Store the block's value, and whether this has changed anything. -/
def visit (value : Values β σ → β → σ) (run : Values β σ × Bool) (block : β) : Values β σ × Bool :=
  let result := value run.1 block
  if run.1 block = some result then run else (Function.update run.1 block (some result), true)

def sweep (value : Values β σ → β → σ) (blocks : List β) (values : Values β σ) :
    Values β σ × Bool :=
  blocks.foldl (visit value) (values, false)

/-- At most `cap` sweeps; whether the last one has changed nothing. -/
def settle (value : Values β σ → β → σ) (blocks : List β) : Nat → Values β σ → Values β σ × Bool
  | 0, values => (values, false)
  | cap + 1, values =>
      let (values, changed) := sweep value blocks values
      if changed then settle value blocks cap values else (values, true)

variable {value : Values β σ → β → σ} {blocks : List β}

/-! ## What one visit preserves -/

section Invariant

variable {P : Values β σ → Prop}

/-- Storing the value of a block keeps `P`. -/
def Preserves (value : Values β σ → β → σ) (blocks : List β) (P : Values β σ → Prop) : Prop :=
  ∀ values, ∀ block ∈ blocks, P values → P (Function.update values block (some (value values block)))

theorem visit_values (run : Values β σ × Bool) (block : β) :
    (visit value run block).1 = Function.update run.1 block (some (value run.1 block)) := by
  unfold visit
  simp only
  split
  · rename_i hsame
    rw [← hsame, Function.update_eq_self]
  · rfl

theorem sweep_invariant (h : Preserves value blocks P) {values : Values β σ} (hstart : P values) :
    P (sweep value blocks values).1 := by
  unfold sweep
  suffices hrun : ∀ rest ⊆ blocks, ∀ run : Values β σ × Bool, P run.1 →
      P (rest.foldl (visit value) run).1 from hrun blocks (fun _ => id) _ hstart
  intro rest
  induction rest with
  | nil => exact fun _ _ h => h
  | cons block rest ih =>
      intro hsub run hrun
      rw [List.foldl_cons]
      apply ih (fun other hother => hsub (List.mem_cons_of_mem _ hother))
      rw [visit_values]
      exact h _ _ (hsub List.mem_cons_self) hrun

/-- What every visit keeps holds of the result, however many sweeps there were. -/
theorem settle_invariant (h : Preserves value blocks P) (cap : Nat) : ∀ {values : Values β σ},
    P values → P (settle value blocks cap values).1 := by
  induction cap with
  | zero => exact fun hstart => hstart
  | succ cap ih =>
      intro values hstart
      have hsweep := sweep_invariant h hstart
      unfold settle
      simp only
      split
      · exact ih hsweep
      · exact hsweep

end Invariant

/-! ## Stable values -/

/-- Every block has the value that is computed for it. -/
def Stable (value : Values β σ → β → σ) (blocks : List β) (values : Values β σ) : Prop :=
  ∀ block ∈ blocks, values block = some (value values block)

theorem visit_changed (run : Values β σ × Bool) (block : β) :
    (visit value run block).2 = false ↔ run.2 = false ∧ run.1 block = some (value run.1 block) := by
  unfold visit
  simp only
  split
  · rename_i hsame
    simp [hsame]
  · rename_i hne
    simp [hne]

/-- A sweep without a change has found the values stable. -/
theorem sweep_unchanged {values : Values β σ} :
    (sweep value blocks values).2 = false ↔ Stable value blocks values := by
  have hrun (rest : List β) : ∀ run : Values β σ × Bool,
      (rest.foldl (visit value) run).2 = false ↔ run.2 = false ∧ Stable value rest run.1 := by
    induction rest with
    | nil => simp [Stable]
    | cons block rest ih =>
        intro run
        rw [List.foldl_cons, ih, visit_changed, and_assoc]
        refine and_congr_right fun _ => ?_
        constructor
        · rintro ⟨hblock, hrest⟩
          rw [visit_values, ← hblock, Function.update_eq_self] at hrest
          exact List.forall_mem_cons.mpr ⟨hblock, hrest⟩
        · intro hstable
          obtain ⟨hblock, hrest⟩ := List.forall_mem_cons.mp hstable
          refine ⟨hblock, ?_⟩
          rw [visit_values, ← hblock, Function.update_eq_self]
          exact hrest
  rw [sweep, hrun]
  exact and_iff_right rfl

theorem sweep_of_stable {values : Values β σ} (h : Stable value blocks values) :
    (sweep value blocks values).1 = values := by
  have hkeep : Preserves value blocks (· = values) := by
    rintro _ block hblock rfl
    rw [← h block hblock, Function.update_eq_self]
  exact sweep_invariant hkeep rfl

/-- When the sweeps end by themselves, the values are stable. -/
theorem settle_stable (cap : Nat) : ∀ {values : Values β σ},
    (settle value blocks cap values).2 = true →
      Stable value blocks (settle value blocks cap values).1 := by
  induction cap with
  | zero =>
      intro values h
      cases h
  | succ cap ih =>
      intro values
      unfold settle
      simp only
      split
      · exact ih
      · rename_i hchanged
        intro _
        have hstable := sweep_unchanged.mp (Bool.eq_false_iff.mpr hchanged)
        rw [sweep_of_stable hstable]
        exact hstable

/-! ## Counting the sweeps -/

/-- The values after one sweep. -/
def sweepOnce (value : Values β σ → β → σ) (blocks : List β) (values : Values β σ) : Values β σ :=
  (sweep value blocks values).1

theorem sweepOnce_eq (values : Values β σ) : sweepOnce value blocks values =
    blocks.foldl (fun values block => Function.update values block (some (value values block)))
      values := by
  have hrun (rest : List β) : ∀ run : Values β σ × Bool, (rest.foldl (visit value) run).1 =
      rest.foldl (fun values block => Function.update values block (some (value values block)))
        run.1 := by
    induction rest with
    | nil => exact fun _ => rfl
    | cons block rest ih =>
        intro run
        rw [List.foldl_cons, ih, visit_values]
        rfl
  exact hrun blocks (values, false)

theorem sweepOnce_of_stable {values : Values β σ} (h : Stable value blocks values) (count : Nat) :
    (sweepOnce value blocks)^[count] values = values :=
  Function.iterate_fixed (sweep_of_stable h) count

/-- Sweeps that change nothing can be made all the same. -/
theorem settle_values (cap : Nat) : ∀ values : Values β σ,
    (settle value blocks cap values).1 = (sweepOnce value blocks)^[cap] values := by
  induction cap with
  | zero => exact fun _ => rfl
  | succ cap ih =>
      intro values
      rw [Function.iterate_succ_apply]
      unfold settle
      simp only
      split
      · exact ih _
      · rename_i hchanged
        have hstable := sweep_unchanged.mp (Bool.eq_false_iff.mpr hchanged)
        have hsame : sweepOnce value blocks values = values := sweep_of_stable hstable
        rw [hsame, sweepOnce_of_stable hstable]
        exact hsame

/-- The sweeps end by themselves when they come to stable values before the last one. -/
theorem settle_ends_iff (cap : Nat) : ∀ values : Values β σ,
    (settle value blocks cap values).2 = true ↔
      ∃ count < cap, Stable value blocks ((sweepOnce value blocks)^[count] values) := by
  induction cap with
  | zero => simp [settle]
  | succ cap ih =>
      intro values
      unfold settle
      simp only
      split
      · rename_i hchanged
        rw [ih]
        constructor
        · rintro ⟨count, hcount, hstable⟩
          exact ⟨count + 1, by omega, hstable⟩
        · rintro ⟨count, hcount, hstable⟩
          cases count with
          | zero =>
              have hsame := sweep_unchanged.mpr hstable
              rw [Function.iterate_zero, id_eq, hchanged] at hsame
              cases hsame
          | succ count => exact ⟨count, by omega, hstable⟩
      · rename_i hchanged
        have hstable := sweep_unchanged.mp (Bool.eq_false_iff.mpr hchanged)
        simp only [true_iff]
        exact ⟨0, by omega, hstable⟩

/-! ## What holds after as many sweeps -/

/-- A visit gives its block the next stage of `Q` if the blocks before it have that stage and the
others the last one. -/
theorem sweeps_stage (hnodup : blocks.Nodup) {Q : Nat → β → Option σ → Prop}
    (hstep : ∀ count values, ∀ block ∈ blocks,
      (∀ other ∈ blocks, blocks.idxOf other < blocks.idxOf block →
        Q (count + 1) other (values other)) →
      (∀ other ∈ blocks, blocks.idxOf block ≤ blocks.idxOf other →
        Q count other (values other)) → Q (count + 1) block (some (value values block)))
    {start : Values β σ} (hstart : ∀ block ∈ blocks, Q 0 block (start block)) (count : Nat) :
    ∀ block ∈ blocks, Q count block ((sweepOnce value blocks)^[count] start block) := by
  induction count with
  | zero => exact hstart
  | succ count ih =>
      rw [Function.iterate_succ_apply', sweepOnce_eq]
      generalize (sweepOnce value blocks)^[count] start = values at ih
      suffices hrun : ∀ rest done, done ++ rest = blocks → ∀ values : Values β σ,
          (∀ other ∈ done, Q (count + 1) other (values other)) →
          (∀ other ∈ rest, Q count other (values other)) →
          ∀ block ∈ blocks, Q (count + 1) block (rest.foldl (fun values block =>
            Function.update values block (some (value values block))) values block) from
        hrun blocks [] rfl values (by simp) ih
      intro rest
      induction rest with
      | nil =>
          intro done hdone values hnext _ block hblock
          rw [List.append_nil] at hdone
          exact hnext block (hdone ▸ hblock)
      | cons block rest ihrest =>
          intro done hdone values hnext hlast
          rw [← hdone] at hnodup
          obtain ⟨-, hleft, hdisjoint⟩ := List.nodup_append.mp hnodup
          have hnot : block ∉ done := fun hmem => hdisjoint block hmem block List.mem_cons_self rfl
          have hindex : blocks.idxOf block = done.length := by
            rw [← hdone, List.idxOf_append_of_notMem hnot, List.idxOf_cons_self, Nat.add_zero]
          have hdone_iff : ∀ other ∈ blocks,
              other ∈ done ↔ blocks.idxOf other < blocks.idxOf block := by
            intro other hother
            rw [hindex, ← List.mem_take_iff_idxOf_lt hother, ← hdone, List.take_left]
          have hblock : block ∈ blocks := by
            rw [← hdone]
            exact List.mem_append_right _ List.mem_cons_self
          have hvisited := hstep count values block hblock
            (fun other hother hlt => hnext other ((hdone_iff other hother).mpr hlt))
            (fun other hother hle => by
              rw [← hdone] at hother
              rcases List.mem_append.mp hother with hmem | hmem
              · have hlt := (hdone_iff other (hdone ▸ hother)).mp hmem
                omega
              · exact hlast other hmem)
          rw [List.foldl_cons]
          apply ihrest (done ++ [block]) (by rw [← hdone]; simp)
          · intro other hother
            rcases List.mem_append.mp hother with hmem | hmem
            · have hne : other ≠ block := by
                rintro rfl
                exact hnot hmem
              rw [Function.update_of_ne hne]
              exact hnext other hmem
            · rw [List.mem_singleton.mp hmem, Function.update_self]
              exact hvisited
          · intro other hother
            have hne : other ≠ block := by
              rintro rfl
              exact (List.nodup_cons.mp hleft).1 hother
            rw [Function.update_of_ne hne]
            exact hlast other (List.mem_cons_of_mem _ hother)

/-! ## Two runs side by side -/

/-- Storing the values of a block on both sides keeps `R`. -/
def Respects (value : Values β σ → β → σ) (blocks : List β)
    (R : Values β σ → Values β σ → Prop) : Prop :=
  ∀ first second, ∀ block ∈ blocks, R first second →
    R (Function.update first block (some (value first block)))
      (Function.update second block (some (value second block)))

variable {R : Values β σ → Values β σ → Prop}

theorem sweepOnce_respects (h : Respects value blocks R) {first second : Values β σ}
    (hstart : R first second) : R (sweepOnce value blocks first) (sweepOnce value blocks second) := by
  rw [sweepOnce_eq, sweepOnce_eq]
  suffices hrun : ∀ rest ⊆ blocks, ∀ first second, R first second →
      R (rest.foldl (fun values block => Function.update values block (some (value values block)))
          first)
        (rest.foldl (fun values block => Function.update values block (some (value values block)))
          second) from hrun blocks (fun _ => id) _ _ hstart
  intro rest
  induction rest with
  | nil => exact fun _ _ _ h => h
  | cons block rest ih =>
      intro hsub first second hrun
      apply ih fun other hother => hsub (List.mem_cons_of_mem _ hother)
      exact h _ _ _ (hsub List.mem_cons_self) hrun

theorem sweeps_respect (h : Respects value blocks R) {first second : Values β σ}
    (hstart : R first second) (count : Nat) :
    R ((sweepOnce value blocks)^[count] first) ((sweepOnce value blocks)^[count] second) := by
  induction count with
  | zero => exact hstart
  | succ count ih =>
      rw [Function.iterate_succ_apply', Function.iterate_succ_apply']
      exact sweepOnce_respects h ih

theorem sweeps_invariant {P : Values β σ → Prop} (h : Preserves value blocks P)
    {values : Values β σ} (hstart : P values) (count : Nat) :
    P ((sweepOnce value blocks)^[count] values) := by
  induction count with
  | zero => exact hstart
  | succ count ih =>
      rw [Function.iterate_succ_apply']
      exact sweep_invariant h ih

/-- Values that a whole sweep gives back are stable. -/
theorem stable_of_sweepOnce (hnodup : blocks.Nodup) {values : Values β σ}
    (h : sweepOnce value blocks values = values) : Stable value blocks values := by
  rw [sweepOnce_eq] at h
  have hkeep (rest : List β) : ∀ (block : β) (values : Values β σ), block ∉ rest →
      rest.foldl (fun values block => Function.update values block (some (value values block)))
        values block = values block := by
    induction rest with
    | nil => exact fun _ _ _ => rfl
    | cons other rest ih =>
        intro block values hblock
        rw [List.mem_cons, not_or] at hblock
        obtain ⟨hne, hrest⟩ := hblock
        rw [List.foldl_cons, ih block _ hrest, Function.update_of_ne hne]
  suffices hrun : ∀ rest : List β, rest.Nodup → rest.foldl (fun values block =>
      Function.update values block (some (value values block))) values = values →
        Stable value rest values from hrun blocks hnodup h
  intro rest
  induction rest with
  | nil => exact fun _ _ _ h => by cases h
  | cons block rest ih =>
      intro hnodup hsame
      obtain ⟨hblock, hrest⟩ := List.nodup_cons.mp hnodup
      rw [List.foldl_cons] at hsame
      have hvalue : values block = some (value values block) := by
        have hvisited := hkeep rest block (Function.update values block
          (some (value values block))) hblock
        rw [hsame, Function.update_self] at hvisited
        exact hvisited
      have hupdate : Function.update values block (some (value values block)) = values := by
        rw [← hvalue, Function.update_eq_self]
      rw [hupdate] at hsame
      exact List.forall_mem_cons.mpr ⟨hvalue, ih hrest hsame⟩

end Sweep

end CppContextEngine.Foundation
