/-
Capacity that finished attempts give back.  Two kinds of allowances count
what is running: `concurrency` the attempts and `jobs` the outstanding
jobs.  Settlement gives back both, but an attempt whose outcome is unknown
is released by `Reconcile` and by the sweep of `RunMaintenance`, and these
two look at `concurrency` alone.  No later operation moves the hold of a
job, so such an attempt keeps its unit of every `jobs` allowance for ever.

`AttemptRow.Capacity` states what is held in every state an attempt can be
in; the result is read off from it.
-/
import Hoorific.Store.Settled

namespace Hoorific

/-! ### Finished attempts -/

/-- The attempt was released without a settlement. -/
def AttemptEnvelope.marked (env : AttemptEnvelope) : Prop :=
  env.reconciled = true ∨ env.concurrencyReleased = true

/-- The attempt is finished: settled, not executed, or unknown and released. -/
def AttemptRow.finished (row : AttemptRow) : Prop :=
  row.state = .settled ∨ row.state = .notExecuted ∨
    row.state = .outcomeUnknown ∧ row.data.marked

/-- The plan has an allowance that counts outstanding jobs. -/
def AttemptPlan.limitsJobs (p : AttemptPlan) : Prop := ∃ a ∈ p.allowances, a.kind = .jobs

instance (p : AttemptPlan) : Decidable p.limitsJobs :=
  inferInstanceAs (Decidable (∃ a ∈ p.allowances, a.kind = .jobs))

/-- What an attempt holds of capacity, by its state. -/
structure AttemptRow.Capacity (row : AttemptRow) : Prop where
  concurrency : ∀ e ∈ row.data.holdings, e.1.kind = .concurrency → 0 ≤ e.2
  returned : row.state = .settled ∨ row.state = .notExecuted → row.data.CapacityReturned
  unsettled : row.state ≠ .settled → row.state ≠ .notExecuted →
    ∀ e ∈ row.data.holdings, e.1.kind = .jobs → e.2 = 1
  released : row.data.marked → row.state = .outcomeUnknown ∧
    ∀ e ∈ row.data.holdings, e.1.kind = .concurrency → e.2 = 0

variable {s : Store} {k : AttemptKey} {row row' : AttemptRow}

theorem capacity_of_unmarked (hmarked : ¬ row.data.marked) (hsettled : row.state ≠ .settled)
    (hexecuted : row.state ≠ .notExecuted)
    (hconcurrency : ∀ e ∈ row.data.holdings, e.1.kind = .concurrency → 0 ≤ e.2)
    (hjobs : ∀ e ∈ row.data.holdings, e.1.kind = .jobs → e.2 = 1) : row.Capacity := by
  refine ⟨hconcurrency, ?_, fun _ _ => hjobs, fun h => absurd h hmarked⟩
  rintro (h | h)
  · exact absurd h hsettled
  · exact absurd h hexecuted

theorem capacity_of_released (hstate : row.state = .outcomeUnknown)
    (hconcurrency : ∀ e ∈ row.data.holdings, e.1.kind = .concurrency → e.2 = 0)
    (hjobs : ∀ e ∈ row.data.holdings, e.1.kind = .jobs → e.2 = 1) : row.Capacity := by
  refine ⟨fun e he hkind => (hconcurrency e he hkind).ge, ?_, fun _ _ => hjobs,
    fun _ => ⟨hstate, hconcurrency⟩⟩
  rintro (h | h) <;> cases hstate.symm.trans h

/-! ### One step -/

theorem newAttempt_capacity {plan submitted : AttemptPlan} {subject : String} {held : List ℤ}
    {price : Option PriceSchedule} {revision now : ℤ} {seen : Bool}
    (hheld : List.Forall₂ (fun a amount => admissionHold plan seen a = .ok amount)
      plan.allowances held) :
    (newAttempt plan submitted subject held price revision now).Capacity := by
  have hunits : ∀ e ∈ plan.allowances.zip held, e.2 = admissionUnits plan seen e.1 :=
    fun e he => admissionHold_units ((List.forall₂_iff_zip.1 hheld).2 he)
  refine capacity_of_unmarked ?_ ?_ ?_ ?_ ?_
  · rintro (h | h) <;> cases h
  · exact fun h => nomatch h
  · exact fun h => nomatch h
  · intro e he hkind
    rw [hunits e he, admissionUnits, hkind]
    exact zero_le_one
  · intro e he hkind
    rw [hunits e he, admissionUnits, hkind]

theorem acceptedRow_holdings (hv : row.Valid k) (ev : String) (t : ℤ) :
    (acceptedRow row ev t).data.holdings = row.data.holdings := by
  show row.data.plan.allowances.zip row.data.completed.held = _
  rw [completed_held hv.held]
  rfl

theorem acceptedRow_capacity (hv : row.Valid k) (hcap : row.Capacity)
    (hstate : row.state = .dispatchIntent) (ev : String) (t : ℤ) :
    (acceptedRow row ev t).Capacity := by
  have hholdings := acceptedRow_holdings hv ev t
  refine capacity_of_unmarked ?_ ?_ ?_ ?_ ?_
  · intro hmarked
    cases hstate.symm.trans (hcap.released hmarked).1
  · exact fun h => nomatch h
  · exact fun h => nomatch h
  · rw [hholdings]
    exact hcap.concurrency
  · rw [hholdings]
    exact hcap.unsettled (by simp [hstate]) (by simp [hstate])

/-- Settlement keeps what is held of concurrency or gives it back. -/
theorem holdTarget_concurrency (e : Evidence) {a : Allowance} (hkind : a.kind = .concurrency)
    (h : ℤ) : holdTarget e a h = 0 ∨ holdTarget e a h = h := by
  by_cases hnone : e.next = .notExecuted
  · exact .inl (by simp [holdTarget, hnone])
  by_cases hback : e.next = .settled ∨ e.next = .jobPending
  · exact .inl (by simp [holdTarget, hnone, hkind, hback])
  · exact .inr (by simp [holdTarget, hnone, hkind, hback])

theorem holdTarget_jobs {e : Evidence} {a : Allowance} (hkind : a.kind = .jobs)
    (hsettled : e.next ≠ .settled) (hexecuted : e.next ≠ .notExecuted) (h : ℤ) :
    holdTarget e a h = h := by
  simp [holdTarget, hsettled, hexecuted, hkind]

theorem finalizedRow_marked (row : AttemptRow) (o : AttemptOutcome) (t : ℤ) :
    (finalizedRow row o t).data.marked ↔ row.data.marked := by
  simp only [finalizedRow, finalizedEnvelope, AttemptRow.saved, AttemptEnvelope.finished,
    AttemptEnvelope.chargedWith]
  split <;> rfl

theorem finalizedRow_capacity (hv : row.Valid k) (hcap : row.Capacity) {o : AttemptOutcome}
    (hfin : finalizable row.state o.requested = .ok true) (t : ℤ) :
    (finalizedRow row o t).Capacity := by
  have hlive := finalizable_states hfin
  refine ⟨?_, ?_, ?_, ?_⟩
  · intro e he hkind
    obtain ⟨g, hg, htarget⟩ := mem_holdings_finalized hv he
    rw [htarget]
    rcases holdTarget_concurrency (evidence row.data.completed o) hkind g with h | h
    · exact h.ge
    · rw [h]
      exact hcap.concurrency _ hg hkind
  · rintro (hstate | hstate)
    · exact finalizedRow_settled_capacity hv hstate
    · exact fun e he _ => finalizedRow_notExecuted hv hstate e.2 (List.of_mem_zip he).2
  · intro hsettled hexecuted e he hkind
    obtain ⟨g, hg, htarget⟩ := mem_holdings_finalized hv he
    rw [htarget, holdTarget_jobs hkind hsettled hexecuted]
    refine hcap.unsettled ?_ ?_ _ hg hkind
    all_goals
      rcases hlive with h | h | h <;> simp [h]
  · intro hmarked
    have hunknown := (hcap.released ((finalizedRow_marked row o t).1 hmarked)).1
    rw [hunknown] at hlive
    rcases hlive with h | h | h <;> cases h

/-- A reconciliation gives back concurrency and leaves the jobs. -/
theorem reconciledRow_capacity (hv : row.Valid k) (hcap : row.Capacity)
    (hstate : row.state = .outcomeUnknown) (r : Reconciliation) (charge : Option ℤ)
    (tenantID admission : String) (t : ℤ) :
    (reconciledRow row r charge tenantID admission t).Capacity := by
  have hheld : (reconciledRow row r charge tenantID admission t).data.held =
      List.zipWith (reconciledHold charge (reconciledTokens r)) row.data.plan.allowances
        row.data.held := by
    show reconciledHeld row.data.completed r charge = _
    rw [reconciledHeld, completed_held hv.held]
    rfl
  have hplan : (reconciledRow row r charge tenantID admission t).data.plan = row.data.plan := rfl
  refine capacity_of_released rfl ?_ ?_
  · intro e he hkind
    obtain ⟨g, -, htarget⟩ := mem_holdings_of_moved hplan hheld he
    rw [htarget]
    simp [reconciledHold, reconcileTarget, hkind]
  · intro e he hkind
    obtain ⟨g, hg, htarget⟩ := mem_holdings_of_moved hplan hheld he
    rw [htarget]
    have hone := hcap.unsettled (by simp [hstate]) (by simp [hstate]) _ hg hkind
    simpa [reconciledHold, reconcileTarget, hkind] using hone

/-- A sweep gives back concurrency and leaves the jobs. -/
theorem sweptRow_capacity (hcap : row.Capacity) {cutoff : ℤ}
    (heligible : sweepable cutoff row = true) (now : ℤ) : (sweptRow row now).Capacity := by
  have hheld : (sweptRow row now).data.held =
      List.zipWith releasedHold row.data.plan.allowances row.data.held := rfl
  have hplan : (sweptRow row now).data.plan = row.data.plan := rfl
  have hstates := sweepable_states heligible
  refine capacity_of_released rfl ?_ ?_
  · intro e he hkind
    obtain ⟨g, hg, htarget⟩ := mem_holdings_of_moved hplan hheld he
    have hnonneg : 0 ≤ g := hcap.concurrency _ hg hkind
    rw [htarget, releasedHold]
    split
    next => rfl
    next hnot =>
      have hzero : ¬ 0 < g := fun h => hnot ⟨hkind, h⟩
      exact le_antisymm (not_lt.1 hzero) hnonneg
  · intro e he hkind
    obtain ⟨g, hg, htarget⟩ := mem_holdings_of_moved hplan hheld he
    have hkeeps : releasedHold e.1 g = g := by simp [releasedHold, hkind]
    rw [htarget, hkeeps]
    refine hcap.unsettled ?_ ?_ _ hg hkind
    all_goals
      rcases hstates with h | h | h <;> simp [h]

/-- **Step**: what one operation keeps of a row's capacity. -/
theorem RowChange.capacity {op : Op} {r : Option AttemptRow} (h : RowChange s k op r (some row'))
    (hold : ∀ row, r = some row → row.Valid k ∧ row.Capacity) : row'.Capacity := by
  cases h with
  | kept => exact (hold row' rfl).2
  | admitted _ _ hheld => exact newAttempt_capacity hheld
  | @accepted _ ev savedAt row hstate =>
    obtain ⟨hv, hcap⟩ := hold row rfl
    exact acceptedRow_capacity hv hcap hstate ev savedAt
  | @finalized o _ savedAt row hfin =>
    obtain ⟨hv, hcap⟩ := hold row rfl
    exact finalizedRow_capacity hv hcap hfin savedAt
  | @reconciled _ _ _ _ _ savedAt r charge t row _ hstate =>
    obtain ⟨hv, hcap⟩ := hold row rfl
    exact reconciledRow_capacity hv hcap hstate r charge t _ savedAt
  | @swept now row heligible => exact sweptRow_capacity (hold row rfl).2 heligible now

/-- Every stored attempt holds the capacity its state says. -/
theorem run_capacity (ops : List Op) : ∀ k row,
    (run Op.step {} ops).attempts.lookup k = some row → row.Capacity := by
  refine run_rows ?_ (Along.of_mem (C := fun _ => True) fun _ _ => trivial)
  intro s op k row' hs _ hchange hold
  exact hchange.capacity fun row hrow => ⟨hs k row hrow, hold row hrow⟩

/-! ### Returned capacity -/

/-- Every allowance of a well-formed attempt has a hold. -/
theorem AttemptRow.Valid.exists_hold (hv : row.Valid k) {a : Allowance}
    (ha : a ∈ row.data.plan.allowances) : ∃ h, (a, h) ∈ row.data.holdings := by
  obtain ⟨i, hi, rfl⟩ := List.getElem_of_mem ha
  have hi' : i < row.data.held.length := hv.held.symm ▸ hi
  refine ⟨row.data.held[i], List.mem_iff_getElem.2 ⟨i, ?_, ?_⟩⟩
  · rw [AttemptEnvelope.holdings, List.length_zip]
    exact lt_min hi hi'
  · exact List.getElem_zip

/-- A finished attempt has given back its capacity unless its outcome is
unknown and it holds a job. -/
theorem AttemptRow.Capacity.returned_iff (hcap : row.Capacity) (hv : row.Valid k)
    (hfinished : row.finished) : row.data.CapacityReturned ↔
      ¬ (row.state = .outcomeUnknown ∧ row.data.plan.limitsJobs) := by
  constructor
  · rintro hreturned ⟨hstate, a, ha, hkind⟩
    obtain ⟨h, hmem⟩ := hv.exists_hold ha
    have hone : h = 1 := hcap.unsettled (by simp [hstate]) (by simp [hstate]) _ hmem hkind
    have hzero : h = 0 := hreturned _ hmem (.inr hkind)
    omega
  · intro hnot
    rcases hfinished with hstate | hstate | ⟨hstate, hmarked⟩
    · exact hcap.returned (.inl hstate)
    · exact hcap.returned (.inr hstate)
    rintro e he (hkind | hkind)
    · exact (hcap.released hmarked).2 e he hkind
    · exact absurd ⟨hstate, e.1, (List.of_mem_zip he).1, hkind⟩ hnot

/-- A step that releases no attempt holding a job: no unknown outcome that is
reconciled, and no attempt the sweep finds, is limited by jobs. -/
def CapacityStep (s : Store) : Op → Prop
  | .reconcile _ admission _ _ _ _ => ∀ tenantID row,
      s.attempts.lookup ⟨tenantID, admission⟩ = some row → row.state = .outcomeUnknown →
        ¬ row.data.plan.limitsJobs
  | .maintain now => ∀ k row, s.attempts.lookup k = some row →
      sweepable (now - attemptCancellationGraceSeconds) row = true → ¬ row.data.plan.limitsJobs
  | _ => True

/-- **Step**: what is released under the condition is not limited by jobs. -/
theorem RowChange.unlimited {op : Op}
    (h : RowChange s k op (s.attempts.lookup k) (some row')) (hc : CapacityStep s op)
    (hold : ∀ row, s.attempts.lookup k = some row → row.data.marked →
      ¬ row.data.plan.limitsJobs) (hmarked : row'.data.marked) : ¬ row'.data.plan.limitsJobs := by
  generalize hr : s.attempts.lookup k = r at h
  cases h with
  | kept => exact hold row' hr hmarked
  | admitted => rcases hmarked with h | h <;> cases h
  | @accepted _ _ _ row => exact hold row hr hmarked
  | @finalized o _ savedAt row =>
    rw [finalizedRow_plan]
    exact hold row hr ((finalizedRow_marked row o savedAt).1 hmarked)
  | @reconciled _ _ _ _ _ _ _ _ _ row hkey hstate =>
    subst hkey
    exact hc k.tenantID row hr hstate
  | @swept now row heligible => exact hc k row hr heligible

/-- **Capacity is returned** by a finished attempt exactly if it is not unknown
with a plan that limits jobs; and by every finished attempt in a run that
releases no attempt holding a job. -/
theorem capacity_returned_iff (ops : List Op) :
    (∀ n k row, (run Op.step {} (ops.take n)).attempts.lookup k = some row → row.finished →
      (row.data.CapacityReturned ↔
        ¬ (row.state = .outcomeUnknown ∧ row.data.plan.limitsJobs))) ∧
    (Along Op.step CapacityStep {} ops →
      ∀ n k row, (run Op.step {} (ops.take n)).attempts.lookup k = some row → row.finished →
        row.data.CapacityReturned) := by
  have hiff : ∀ n k row, (run Op.step {} (ops.take n)).attempts.lookup k = some row →
      row.finished → (row.data.CapacityReturned ↔
        ¬ (row.state = .outcomeUnknown ∧ row.data.plan.limitsJobs)) :=
    fun n k row hrow =>
      (run_capacity (ops.take n) k row hrow).returned_iff (run_wellFormed (ops.take n) k row hrow)
  refine ⟨hiff, fun h n k row hrow hfinished => (hiff n k row hrow hfinished).2 ?_⟩
  rintro ⟨hstate, hlimits⟩
  rcases hfinished with h' | h' | ⟨-, hmarked⟩
  · cases hstate.symm.trans h'
  · cases hstate.symm.trans h'
  · exact run_rows (fun s op k row' _ hc hchange hold => hchange.unlimited hc hold) (h.take n) k row
      hrow hmarked hlimits

/-- A tenant with a limit on running attempts and on outstanding jobs, and an
attempt that is swept after its deadline. -/
def sweptAttempt (outstandingJobs : ℤ) : List Op :=
  [.configure sampleStore,
   .sync "t" "l" (some { scope := .tenant, scopeID := "t", concurrency := 1,
                         outstandingJobs := outstandingJobs }) 100,
   .begin none (samplePlan "r1" "x") 100 100,
   .maintain 2000]

/-- Without a limit on jobs the swept attempt holds nothing. -/
theorem sweptAttempt_returned :
    ∃ row, (run Op.step {} (sweptAttempt 0)).attempts.lookup ⟨"t", "x"⟩ = some row ∧
      row.data.held = [0] ∧ row.data.CapacityReturned := by
  have hsome : ((run Op.step {} (sweptAttempt 0)).attempts.lookup ⟨"t", "x"⟩).map
      (fun row => (row.state, row.data.concurrencyReleased, row.data.held)) =
        some (.outcomeUnknown, true, [0]) := by decide +kernel
  obtain ⟨row, hrow, hparts⟩ := Option.map_eq_some_iff.1 hsome
  simp only [Prod.mk.injEq] at hparts
  obtain ⟨hstate, hreleased, hheld⟩ := hparts
  refine ⟨row, hrow, hheld, ?_⟩
  refine (capacity_returned_iff (sweptAttempt 0)).2 ?_ 4 ⟨"t", "x"⟩ row hrow
    (.inr (.inr ⟨hstate, .inr hreleased⟩))
  -- no stored attempt has a plan that limits jobs when the sweep runs
  have hnone : (Table.select (fun _ row => decide row.data.plan.limitsJobs)
      (run Op.step {} ((sweptAttempt 0).take 3)).attempts).length = 0 := by decide +kernel
  rw [List.length_eq_zero_iff, List.eq_nil_iff_forall_not_mem] at hnone
  refine ⟨trivial, trivial, trivial, fun k row hrow _ hlimits => ?_, trivial⟩
  exact hnone (k, row) (Table.mem_select_iff.2 ⟨hrow, decide_eq_true hlimits⟩)

/-- With a limit of one job it keeps the job, and the tenant has none left. -/
theorem sweptAttempt_keeps_job :
    ∃ row, (run Op.step {} (sweptAttempt 1)).attempts.lookup ⟨"t", "x"⟩ = some row ∧
      row.finished ∧ ¬ row.data.CapacityReturned ∧
      ((Op.begin none (samplePlan "r2" "y") 200 200).execute
        (run Op.step {} (sweptAttempt 1))).1.isOk = false := by
  have hsome : ((run Op.step {} (sweptAttempt 1)).attempts.lookup ⟨"t", "x"⟩).map
      (fun row => (row.state, row.data.concurrencyReleased, decide row.data.CapacityReturned)) =
        some (.outcomeUnknown, true, false) := by decide +kernel
  obtain ⟨row, hrow, hparts⟩ := Option.map_eq_some_iff.1 hsome
  simp only [Prod.mk.injEq] at hparts
  obtain ⟨hstate, hreleased, hholds⟩ := hparts
  exact ⟨row, hrow, .inr (.inr ⟨hstate, .inr hreleased⟩), of_decide_eq_false hholds,
    by decide +kernel⟩

end Hoorific
