import CppContextEngine.Foundation.Fallible
import Mathlib.Algebra.GroupWithZero.Nat
import Mathlib.Data.List.ReduceOption

/-!
# Runs under shared budgets

A run works through jobs and pays for what each of them shows from counters
that all share.  It stops when a counter is used up, and says whether something
was left out.  What is said of one job carries over to the run: nothing is
overspent, and a run that left nothing out shows every job whole.
-/

namespace CppContextEngine.Foundation

variable {ε Job Out Budget ι : Type}

/-- What one job shows, what it leaves of the budget, and what it left out. -/
structure Served (Out Budget : Type) where
  output : Out
  left : Budget
  /-- A page of the job was cut. -/
  cut : Bool
  /-- A page was not asked for, because the budget was used up. -/
  skipped : Bool := false

/-- The loop over jobs; a job without output is passed over. -/
def budgetedRun (serve : Job → Budget → Except ε (Option (Served Out Budget)))
    (spent : Budget → Bool) (total : Nat) :
    List Job → Budget → List Out → Bool → Except ε (List Out × Bool)
  | [], _, rendered, truncated => .ok (rendered, truncated)
  | job :: jobs, left, rendered, truncated => do
      match ← serve job left with
      | none => budgetedRun serve spent total jobs left rendered truncated
      | some served =>
          let rendered := rendered ++ [served.output]
          let truncated := truncated || served.cut
          if spent served.left then
            return (rendered, truncated || rendered.length < total || served.skipped)
          else budgetedRun serve spent total jobs served.left rendered truncated

/-- What one job shows is paid for, and is the whole job unless something was left out. -/
structure Pays (serve : Job → Budget → Except ε (Option (Served Out Budget)))
    (spent : Budget → Bool) (whole : Job → Except ε (Option Out)) (amount : ι → Budget → Nat)
    (cost : ι → Out → Nat) : Prop where
  paid : ∀ job left served, spent left = false → serve job left = .ok (some served) →
    ∀ i, cost i served.output + amount i served.left ≤ amount i left
  exhausted : ∀ job left served, spent left = false → serve job left = .ok (some served) →
    served.skipped = true → spent served.left = true
  passed : ∀ job left, spent left = false → serve job left = .ok none → whole job = .ok none
  shown : ∀ job left served, spent left = false → serve job left = .ok (some served) →
    served.cut = false → served.skipped = false → whole job = .ok (some served.output)

section Run

variable {serve : Job → Budget → Except ε (Option (Served Out Budget))} {spent : Budget → Bool}
  {whole : Job → Except ε (Option Out)} {amount : ι → Budget → Nat} {cost : ι → Out → Nat}

theorem mapM_cons_ok {job : Job} {jobs : List Job} {output : Option Out}
    {outputs : List (Option Out)} (hjob : whole job = .ok output)
    (hjobs : jobs.mapM whole = .ok outputs) :
    (job :: jobs).mapM whole = .ok (output :: outputs) := by
  rw [List.mapM_cons, hjob]
  simp [hjobs, bind, Except.bind, pure, Except.pure]

/-- What a job that is always shown adds to a run. -/
theorem mapM_some_ok {jobs : List Job} {whole : Job → Except ε Out} :
    ∀ {outputs : List (Option Out)},
    jobs.mapM (fun job => some <$> whole job) = .ok outputs →
      jobs.mapM whole = .ok outputs.reduceOption := by
  induction jobs with
  | nil =>
      intro outputs h
      cases h
      rfl
  | cons job jobs ih =>
      intro outputs h
      rw [List.mapM_cons] at h
      obtain ⟨output, houtput, h⟩ := bind_eq_ok.mp h
      obtain ⟨rest, hrest, h⟩ := bind_eq_ok.mp h
      cases h
      cases hjob : whole job with
      | error error => simp [hjob, Functor.map, Except.map] at houtput
      | ok shown =>
          simp only [hjob, Functor.map, Except.map, Except.ok.injEq] at houtput
          subst houtput
          simp [hjob, ih hrest, List.reduceOption_cons_of_some, bind, Except.bind, pure, Except.pure]

/-- A run overspends no counter, and one that left nothing out shows every job whole. -/
theorem budgetedRun_spec (hpays : Pays serve spent whole amount cost) {total : Nat}
    {jobs : List Job} : ∀ {left : Budget} {rendered result : List Out} {truncated flag : Bool},
    spent left = false → rendered.length + jobs.length ≤ total →
    budgetedRun serve spent total jobs left rendered truncated = .ok (result, flag) →
    ∃ shown : List Out, result = rendered ++ shown ∧
      (∀ i, (shown.map (cost i)).sum ≤ amount i left) ∧
      (∀ output ∈ shown, ∃ job ∈ jobs, ∃ left served, spent left = false ∧
        serve job left = .ok (some served) ∧ output = served.output) ∧
      (flag = false → truncated = false ∧
        ∃ outputs, jobs.mapM whole = .ok outputs ∧ shown = outputs.reduceOption) := by
  induction jobs with
  | nil =>
      intro left rendered result truncated flag _ _ h
      cases h
      exact ⟨[], by simp, by simp, by simp, fun hflag => ⟨hflag, [], rfl, rfl⟩⟩
  | cons job jobs ih =>
      intro left rendered result truncated flag hleft htotal h
      rw [budgetedRun] at h
      obtain ⟨answer, hserve, hrest⟩ := bind_eq_ok.mp h
      cases answer with
      | none =>
          have hlength : rendered.length + jobs.length ≤ total := by
            simp only [List.length_cons] at htotal
            omega
          obtain ⟨shown, hresult, hcost, hmade, hwhole⟩ := ih hleft hlength hrest
          refine ⟨shown, hresult, hcost, ?_, ?_⟩
          · intro output houtput
            obtain ⟨other, hother, hrun⟩ := hmade output houtput
            exact ⟨other, List.mem_cons_of_mem _ hother, hrun⟩
          · intro hflag
            obtain ⟨htruncated, outputs, houtputs, hshown⟩ := hwhole hflag
            exact ⟨htruncated, none :: outputs,
              mapM_cons_ok (hpays.passed job left hleft hserve) houtputs,
              hshown.trans (List.reduceOption_cons_of_none outputs).symm⟩
      | some served =>
          have hpaid := hpays.paid job left served hleft hserve
          have hmade : ∃ job' ∈ job :: jobs, ∃ left served', spent left = false ∧
              serve job' left = .ok (some served') ∧ served.output = served'.output :=
            ⟨job, List.mem_cons_self, left, served, hleft, hserve, rfl⟩
          simp only at hrest
          by_cases hspent : spent served.left = true
          · rw [if_pos hspent] at hrest
            obtain ⟨rfl, rfl⟩ := Prod.mk.inj (Except.ok.inj hrest)
            refine ⟨[served.output], rfl, ?_, ?_, ?_⟩
            · intro i
              have := hpaid i
              simp
              omega
            · simpa using hmade
            · intro hflag
              simp only [Bool.or_eq_false_iff, decide_eq_false_iff_not, List.length_append,
                List.length_singleton, Nat.not_lt] at hflag
              obtain ⟨⟨⟨htruncated, hcut⟩, hlength⟩, hskipped⟩ := hflag
              have hjobs : jobs = [] := by
                rw [← List.length_eq_zero_iff]
                simp only [List.length_cons] at htotal
                omega
              subst hjobs
              exact ⟨htruncated, [some served.output],
                mapM_cons_ok (hpays.shown job left served hleft hserve hcut hskipped) rfl, rfl⟩
          · rw [if_neg hspent] at hrest
            have hlive : spent served.left = false := by simpa using hspent
            have hlength : (rendered ++ [served.output]).length + jobs.length ≤ total := by
              simp only [List.length_append, List.length_cons, List.length_nil] at htotal ⊢
              omega
            obtain ⟨shown, hresult, hcost, hrun, hwhole⟩ := ih hlive hlength hrest
            refine ⟨served.output :: shown, by simpa using hresult, ?_, ?_, ?_⟩
            · intro i
              have hfirst := hpaid i
              have hrest := hcost i
              simp only [List.map_cons, List.sum_cons]
              omega
            · intro output houtput
              rcases List.mem_cons.mp houtput with rfl | houtput
              · exact hmade
              · obtain ⟨other, hother, hserved⟩ := hrun output houtput
                exact ⟨other, List.mem_cons_of_mem _ hother, hserved⟩
            · intro hflag
              obtain ⟨htruncated, outputs, houtputs, hshown⟩ := hwhole hflag
              obtain ⟨htruncated, hcut⟩ := Bool.or_eq_false_iff.mp htruncated
              have hskipped : served.skipped = false := by
                by_contra hskipped
                exact hspent (hpays.exhausted job left served hleft hserve (by simpa using hskipped))
              exact ⟨htruncated, some served.output :: outputs,
                mapM_cons_ok (hpays.shown job left served hleft hserve hcut hskipped) houtputs,
                by rw [List.reduceOption_cons_of_some, hshown]⟩

end Run

end CppContextEngine.Foundation
