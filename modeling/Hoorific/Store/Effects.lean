/-
What each operation does to the accounting tables, said once.  For every
operation there is one lemma that turns a successful run of its body into
a statement about rows: which row was found, which row replaced it, how
the counters moved, which ledger row was posted.  Invariants are proved
from these lemmas and never unfold an operation again.

The rows an operation writes are pure functions of the rows it read
(`finalizedRow`, `acceptedRow`, `reconciledRow`, `sweptRow`), so a lemma
about an invariant is a lemma about these functions.

The lemmas assume that the stored rows are well formed: a row's plan
carries the key it is stored under, and every allowance has its hold.
`AttemptRow.Valid` is kept by every operation.
-/
import Hoorific.Store.Holds
import Hoorific.Store.Reconcile
import Hoorific.Store.Maintenance

namespace Hoorific

open List Tx Table

/-! ### Well-formed rows -/

/-- A stored attempt is well formed: its plan names the key it is stored
under and its request, and `held` runs parallel to the allowances. -/
structure AttemptRow.Valid (k : AttemptKey) (row : AttemptRow) : Prop where
  tenantID : row.data.plan.tenantID = k.tenantID
  attemptID : row.data.plan.attemptID = k.attemptID
  requestID : row.data.plan.requestID = row.requestID
  named : row.requestID ≠ ""
  held : row.data.held.length = row.data.plan.allowances.length

/-- Every stored attempt is well formed. -/
def WellFormed (s : Store) : Prop := ∀ k row, s.attempts.lookup k = some row → row.Valid k

theorem wellFormed_empty : WellFormed {} := by
  intro k row h
  simp at h

variable {s s' s₁ : Store} {k : AttemptKey} {row : AttemptRow} {env : AttemptEnvelope}
  {t subject admission : String} {state : AttemptState}
  {version now planNow at_ chargedAt savedAt expected : ℤ} {u : Unit} {p submitted : AttemptPlan}
  {permit : AttemptPermit} {principal : Option Principal} {o : AttemptOutcome}
  {request : Reconciliation} {out : ℤ × ReconciliationResult}

theorem WellFormed.insert (hs : WellFormed s) (hrow : row.Valid k)
    (hs' : s'.attempts = s.attempts.insert k row) : WellFormed s' := by
  unfold WellFormed
  rw [hs']
  exact forall_insert hs hrow

theorem WellFormed.of_attempts_eq (hs : WellFormed s) (h : s'.attempts = s.attempts) :
    WellFormed s' := by
  intro k row hrow
  rw [h] at hrow
  exact hs k row hrow

/-! ### Loading and saving -/

theorem completed_held (h : env.held.length = env.plan.allowances.length) :
    env.completed.held = env.held := by
  simp [AttemptEnvelope.completed, h]

theorem completed_holds (h : env.held.length = env.plan.allowances.length) :
    env.completed.holds = env.holds := by
  rw [AttemptEnvelope.holds, completed_held h]
  rfl

theorem AttemptRow.Valid.completed_length (hv : row.Valid k) :
    row.data.completed.held.length = row.data.completed.plan.allowances.length := by
  rw [completed_held hv.held]
  exact hv.held

theorem loadAttempt_ok {id : String} (h : loadAttempt s t id = .ok (env, state, version)) :
    ∃ row, s.attempts.lookup ⟨t, id⟩ = some row ∧ env = row.data.completed ∧
      state = row.state ∧ version = row.version := by
  unfold loadAttempt at h
  split at h
  · cases h
  next row hrow =>
    simp only at h
    split at h
    · cases h
    · cases h
      exact ⟨row, hrow, rfl, rfl, rfl⟩

theorem loadAttempt_of_valid (hrow : s.attempts.lookup k = some row) (hv : row.Valid k) :
    loadAttempt s k.tenantID k.attemptID = .ok (row.data.completed, row.state, row.version) := by
  have hnamed : ¬ (row.data.completed.plan.tenantID ≠ k.tenantID ∨
      row.data.completed.plan.attemptID ≠ k.attemptID ∨
      row.data.completed.plan.requestID = "") := by
    rintro (h | h | h)
    · exact h hv.tenantID
    · exact h hv.attemptID
    · exact hv.named (hv.requestID ▸ h)
  unfold loadAttempt
  rw [hrow]
  exact if_neg hnamed

theorem runs_saveAttempt (h : Runs (saveAttempt env state version) s u s') :
    ∃ row, s.attempts.lookup ⟨env.plan.tenantID, env.plan.attemptID⟩ = some row ∧
      { s with attempts := s.attempts.insert ⟨env.plan.tenantID, env.plan.attemptID⟩
                             (row.saved env state) } = s' := by
  simp only [saveAttempt, runs_get_bind, runs_orFail_bind, runs_require_bind, runs_modify] at h
  obtain ⟨row, hrow, -, rfl⟩ := h
  exact ⟨row, hrow, rfl⟩

/-! ### Replacing a row -/

/-- The attempt under `k` was replaced, and the counters moved by what it
holds more or less.  Nothing but the accounting tables changed. -/
structure Replaced (s s' : Store) (k : AttemptKey) (row row' : AttemptRow) : Prop where
  found : s.attempts.lookup k = some row
  attempts : s'.attempts = s.attempts.insert k row'
  reserved : s'.reserved + row.data.holds = s.reserved + row'.data.holds
  rows : ∀ k, (s.allowances.lookup k).isSome → (s'.allowances.lookup k).isSome
  frame : s' = { s with allowances := s'.allowances, attempts := s'.attempts,
                        usageLedger := s'.usageLedger, reconciliations := s'.reconciliations }

theorem saved_valid (hrow : row.Valid k) (hplan : env.plan = row.data.plan)
    (hheld : env.held.length = row.data.held.length) : (row.saved env state).Valid k where
  tenantID := by simpa [AttemptRow.saved, hplan] using hrow.tenantID
  attemptID := by simpa [AttemptRow.saved, hplan] using hrow.attemptID
  requestID := by simpa [AttemptRow.saved, hplan] using hrow.requestID
  named := hrow.named
  held := by simpa [AttemptRow.saved, hplan, hheld] using hrow.held

/-- Only counters and ledger rows changed. -/
structure Settling (s s' : Store) : Prop where
  frame : s' = { s with allowances := s'.allowances, usageLedger := s'.usageLedger }
  rows : ∀ k, (s.allowances.lookup k).isSome → (s'.allowances.lookup k).isSome

theorem CountersOnly.settling (h : CountersOnly s s') : Settling s s' := ⟨by rw [h.frame], h.rows⟩

theorem CountersOnly.settling_ledger (h : CountersOnly s s₁)
    (hledger : s' = { s₁ with usageLedger := s'.usageLedger }) : Settling s s' where
  frame := by rw [hledger, h.frame]
  rows := fun k hk => by
    rw [hledger]
    exact h.rows k hk

/-- **Saving replaces the loaded row**: if the counters have moved by what the
saved envelope holds more than the stored one. -/
theorem saveAttempt_replaces (hs : WellFormed s)
    (hsave : Runs (saveAttempt env state version) s₁ u s')
    (hrow : s.attempts.lookup k = some row) (hplan : env.plan = row.data.plan)
    (hset : Settling s s₁) (hres : s₁.reserved + row.data.holds = s.reserved + env.holds) :
    Replaced s s' k row (row.saved env state) ∧ s'.usageLedger = s₁.usageLedger := by
  have hv := hs k row hrow
  have hkey : (⟨env.plan.tenantID, env.plan.attemptID⟩ : AttemptKey) = k := by
    rw [hplan, hv.tenantID, hv.attemptID]
  have hatt : s₁.attempts = s.attempts := by rw [hset.frame]
  obtain ⟨row', hrow', rfl⟩ := runs_saveAttempt hsave
  rw [hkey, hatt] at hrow'
  cases hrow.symm.trans hrow'
  refine ⟨⟨hrow, ?_, hres, hset.rows, ?_⟩, rfl⟩
  · rw [hkey, hatt]
  · rw [hset.frame]

/-! ### Posting to the ledger -/

/-- A row was posted under `k`, or an earlier effect with the same id made
the insert do nothing. -/
def Posted (s s' : Store) (k : LedgerKey) (row : LedgerRow) : Prop :=
  (∃ old, s.usageLedger.lookup k = some old ∧ s'.usageLedger = s.usageLedger) ∨
  (s.usageLedger.lookup k = none ∧ s'.usageLedger = s.usageLedger.insert k row ∧
    ∀ k' row', s.usageLedger.lookup k' = some row' → k'.tenantID = k.tenantID →
      row'.attemptID = row.attemptID → row'.effectKind ≠ row.effectKind)

theorem runs_insertLedger {k : LedgerKey} {row : LedgerRow} {ignore : Bool}
    (h : Runs (insertLedger k row ignore) s u s') :
    Posted s s' k row ∧ s' = { s with usageLedger := s'.usageLedger } ∧
      (ignore = false → s.usageLedger.lookup k = none) := by
  simp only [insertLedger, runs_bind, runs_get] at h
  obtain ⟨_, _, ⟨rfl, rfl⟩, h⟩ := h
  rcases hk : s.usageLedger.lookup k with - | old
  · simp only [hk, runs_bind, runs_require, runs_modify, beq_iff_eq, length_eq_zero_iff] at h
    obtain ⟨_, _, ⟨hnone, rfl⟩, rfl⟩ := h
    refine ⟨.inr ⟨hk, rfl, ?_⟩, rfl, fun _ => rfl⟩
    intro k' row' hrow' ht ha hkind
    have hmem : (k', row') ∈ Table.select (fun k' row' => k'.tenantID == k.tenantID &&
        row'.attemptID == row.attemptID && row'.effectKind == row.effectKind) s.usageLedger :=
      mem_select_iff.2 ⟨hrow', by simp [ht, ha, hkind]⟩
    rw [hnone] at hmem
    simp at hmem
  · simp only [hk, runs_require] at h
    obtain ⟨hignore, rfl⟩ := h
    refine ⟨.inl ⟨old, hk, rfl⟩, rfl, fun hf => ?_⟩
    rw [hf] at hignore
    cases hignore

/-! ### `BeginAttempt` -/

/-- A new attempt was stored under `k`, and the counters rose by what it holds. -/
structure Admitted (s s' : Store) (k : AttemptKey) (row : AttemptRow) : Prop where
  fresh : s.attempts.lookup k = none
  attempts : s'.attempts = s.attempts.insert k row
  reserved : s'.reserved = s.reserved + row.data.holds
  frame : s' = { s with policyLimits := s'.policyLimits, quotaWindows := s'.quotaWindows,
                        allowances := s'.allowances, attempts := s'.attempts }

/-- An attempt is admitted when its allowances are reserved and it is inserted. -/
theorem admitted_of_reserved {seen : Bool} {held : List ℤ} {price : Option PriceSchedule}
    {revision : ℤ} (hfresh : s.attempts.lookup ⟨p.tenantID, p.attemptID⟩ = none)
    (hloop : Runs (p.allowances.foldlM (reserveAllowance p seen now) []) s held s₁) :
    List.Forall₂ (fun a amount => admissionHold p seen a = .ok amount) p.allowances held ∧
      Admitted s { s₁ with
          attempts := s₁.attempts.insert ⟨p.tenantID, p.attemptID⟩
            (newAttempt p submitted subject held price revision now) } ⟨p.tenantID, p.attemptID⟩
        (newAttempt p submitted subject held price revision now) := by
  obtain ⟨hheld, hframe, hres⟩ := reserveAllowances_runs hloop
  refine ⟨hheld, hfresh, ?_, hres, ?_⟩
  · rw [hframe.attempts]
  · rw [hframe.frame]

/-- **`BeginAttempt`**: the deadline and the plan are checked and the plan is
resolved; then either a stored attempt that was begun with the same plan is
answered again and only the policy tables may have changed, or the allowances
are reserved and a new attempt is stored. -/
theorem beginAttempt_runs (h : Runs (beginAttempt principal submitted now planNow) s permit s') :
    ∃ p s₁, (now < submitted.deadline.unix ∧ validatePlan submitted = .ok () ∧
        checkPlan s principal submitted planNow = .ok ()) ∧
      Runs (resolveAllowances submitted planNow) s p s₁ ∧ PolicyOnly s s₁ ∧
      p = { submitted with allowances := p.allowances } ∧
      ((s' = s₁ ∧ ∃ row, s.attempts.lookup ⟨p.tenantID, p.attemptID⟩ = some row ∧
          sameAttempt (if row.data.submitted.attemptID = "" then row.data.plan
            else row.data.submitted) submitted = true) ∨
        ∃ subject held price s₂, s₁.attempts.lookup ⟨p.tenantID, p.attemptID⟩ = none ∧
          Runs (p.allowances.foldlM
            (reserveAllowance p (requestSeen s p.tenantID p.requestID) now) []) s₁ held s₂ ∧
          s' = { s₂ with
            attempts := s₂.attempts.insert ⟨p.tenantID, p.attemptID⟩
              (newAttempt p submitted subject held price s.revision now) }) := by
  simp only [beginAttempt, runs_liftE_bind, runs_require_bind] at h
  obtain ⟨⟨⟩, hvalid, hdeadline, h⟩ := h
  obtain ⟨p, s₁, hderive, h⟩ := runs_bind.1 h
  simp only [runs_get_bind, runs_require_bind] at h
  obtain ⟨-, -, h⟩ := h
  obtain ⟨hcheck, hres, hpolicy, hplan⟩ := derivePlanTx_runs hderive
  refine ⟨p, s₁, ⟨of_decide_eq_true hdeadline, hvalid, hcheck⟩, hres, hpolicy, hplan, ?_⟩
  rcases hrow : s₁.attempts.lookup ⟨p.tenantID, p.attemptID⟩ with - | row
  · right
    simp only [hrow, admitAttempt, runs_bind, runs_get, runs_liftE, runs_modify, runs_pure] at h
    obtain ⟨_, _, ⟨rfl, rfl⟩, held, s₂, hloop, price, _, ⟨-, rfl⟩, _, _, rfl, -, rfl⟩ := h
    have hseen : requestSeen s₁ p.tenantID p.requestID = requestSeen s p.tenantID p.requestID := by
      rw [requestSeen, requestSeen, hpolicy.attempts]
    have hrev : s₁.revision = s.revision := by rw [hpolicy.frame]
    rw [hseen] at hloop
    rw [hrev]
    exact ⟨_, held, price, s₂, hrow, hloop, rfl⟩
  · left
    simp only [hrow, replayAttempt, runs_require_bind, runs_pure] at h
    obtain ⟨hsame, -, -, rfl⟩ := h
    exact ⟨rfl, row, by rw [← hpolicy.attempts]; exact hrow, hsame⟩

theorem validatePlan_requestID (h : validatePlan p = .ok ()) : p.requestID ≠ "" := by
  intro hempty
  simp [validatePlan, hempty] at h

/-! ### `FinalizeAttempt` -/

/-- The amount `FinalizeAttempt` charges, if it charges at all. -/
def AttemptEnvelope.charges (env : AttemptEnvelope) (e : Evidence) : Option ℤ :=
  if (e.next = .settled ∨ e.next = .outcomeUnknown) ∧ env.chargedCostKnown = false then
    e.actualCost
  else none

/-- The envelope with that charge recorded. -/
def AttemptEnvelope.chargedWith (env : AttemptEnvelope) (e : Evidence) : AttemptEnvelope :=
  match env.charges e with
  | none => env
  | some cost => env.charged cost

/-- The envelope `FinalizeAttempt` saves. -/
def finalizedEnvelope (env : AttemptEnvelope) (o : AttemptOutcome) (savedAt : ℤ) :
    AttemptEnvelope :=
  let e := evidence env o
  ((env.withHeld (List.zipWith (holdTarget e) env.plan.allowances env.held)).chargedWith e).finished
    (o.settledWith e) savedAt

/-- The row `FinalizeAttempt` writes. -/
def finalizedRow (row : AttemptRow) (o : AttemptOutcome) (savedAt : ℤ) : AttemptRow :=
  row.saved (finalizedEnvelope row.data.completed o savedAt) (evidence row.data.completed o).next

/-- An attempt ends in the state asked for, unless `settled` is demoted. -/
theorem evidence_next_cases (env : AttemptEnvelope) (o : AttemptOutcome) :
    (evidence env o).next = o.requested ∨
      o.requested = .settled ∧ (evidence env o).next = .outcomeUnknown := by
  have hraw : (rawEvidence env o).next = o.requested ∨
      o.requested = .settled ∧ (rawEvidence env o).next = .outcomeUnknown := by
    simp only [rawEvidence]
    split
    next h => exact .inr ⟨h.2, rfl⟩
    next => exact .inl rfl
  unfold evidence
  simp only
  split
  next h =>
    -- only an outcome that still asks for `settled` is demoted
    have hset : (rawEvidence env o).next = .settled := by
      simp only [Evidence.demoted, Bool.and_eq_true, beq_iff_eq] at h
      exact h.1
    rw [hset] at hraw
    rcases hraw with hreq | ⟨-, hne⟩
    · exact .inr ⟨hreq.symm, rfl⟩
    · cases hne
  next => exact hraw

/-- The ledger row of a charge, if there is one. -/
def ChargePosted (s s' : Store) (o : AttemptOutcome) (charge : Option ℤ) (at_ : ℤ) : Prop :=
  match charge with
  | none => s'.usageLedger = s.usageLedger
  | some cost => Posted s s' ⟨o.tenantID, o.attemptID ++ ":charge"⟩
      ⟨o.attemptID, "charge", some cost, at_⟩

theorem ChargePosted.congr {s₂ : Store} {charge : Option ℤ} (h : ChargePosted s₁ s₂ o charge at_)
    (hs : s₁.usageLedger = s.usageLedger) (hs' : s'.usageLedger = s₂.usageLedger) :
    ChargePosted s s' o charge at_ := by
  unfold ChargePosted Posted at h ⊢
  rw [hs', ← hs]
  exact h

theorem chargedWith_plan (env : AttemptEnvelope) (e : Evidence) :
    (env.chargedWith e).plan = env.plan := by
  unfold AttemptEnvelope.chargedWith
  split <;> rfl

theorem chargedWith_held (env : AttemptEnvelope) (e : Evidence) :
    (env.chargedWith e).held = env.held := by
  unfold AttemptEnvelope.chargedWith
  split <;> rfl

theorem chargeAttempt_runs {e : Evidence} {env' : AttemptEnvelope}
    (h : Runs (chargeAttempt e o env at_) s env' s') :
    env' = env.chargedWith e ∧ ChargePosted s s' o (env.charges e) at_ ∧
      s' = { s with usageLedger := s'.usageLedger } := by
  unfold chargeAttempt at h
  rcases hcost : e.actualCost with - | cost
  · simp only [hcost, runs_pure] at h
    obtain ⟨rfl, rfl⟩ := h
    have hnone : env.charges e = none := by simp [AttemptEnvelope.charges, hcost]
    rw [AttemptEnvelope.chargedWith, hnone]
    exact ⟨rfl, rfl, rfl⟩
  · simp only [hcost, runs_ite, runs_bind, runs_pure] at h
    rcases h with ⟨hc, _, s₁, hins, rfl, rfl⟩ | ⟨hc, rfl, rfl⟩
    · have hsome : env.charges e = some cost := by simp [AttemptEnvelope.charges, hcost, hc]
      obtain ⟨hpost, hframe, -⟩ := runs_insertLedger hins
      rw [AttemptEnvelope.chargedWith, hsome]
      exact ⟨rfl, hpost, hframe⟩
    · have hnone : env.charges e = none := by simp [AttemptEnvelope.charges, hc]
      rw [AttemptEnvelope.chargedWith, hnone]
      exact ⟨rfl, rfl, rfl⟩

@[simp] theorem finished_holds (env : AttemptEnvelope) (o : AttemptOutcome) (t : ℤ) :
    (env.finished o t).holds = env.holds := rfl

theorem chargedWith_holds (env : AttemptEnvelope) (e : Evidence) :
    (env.chargedWith e).holds = env.holds := by
  rw [AttemptEnvelope.holds, chargedWith_plan, chargedWith_held]
  rfl

/-- **`FinalizeAttempt`**: a stored attempt is found; either it is already in
the requested state and nothing changes, or its row is replaced. -/
theorem finalizeAttempt_runs (hs : WellFormed s)
    (h : Runs (finalizeAttempt o chargedAt savedAt) s u s') :
    ∃ row, s.attempts.lookup ⟨o.tenantID, o.attemptID⟩ = some row ∧
      ((finalizable row.state o.requested = .ok false ∧ s' = s) ∨
        (finalizable row.state o.requested = .ok true ∧
          Replaced s s' ⟨o.tenantID, o.attemptID⟩ row (finalizedRow row o savedAt) ∧
          ChargePosted s s' o
            (row.data.completed.charges (evidence row.data.completed o)) chargedAt)) := by
  simp only [finalizeAttempt, runs_require_bind, runs_get_bind, runs_liftE_bind] at h
  obtain ⟨-, ⟨env, state, version⟩, hload, -, -, proceed, hproceed, h⟩ := h
  simp only [runs_ite, runs_pure, runs_bind] at h
  obtain ⟨row, hrow, rfl, rfl, rfl⟩ := loadAttempt_ok hload
  have hv := hs _ _ hrow
  refine ⟨row, hrow, ?_⟩
  rcases h with ⟨rfl, -, rfl⟩ | ⟨hne, env₁, s₁, hloop, env₂, s₂, hcharge, hsave⟩
  · exact .inl ⟨hproceed, rfl⟩
  obtain rfl : proceed = true := by simpa using hne
  -- settle the holds, charge, save
  obtain ⟨rfl, hframe, hres⟩ := (movesHold_settleHold _).runs hv.completed_length hloop
  obtain ⟨rfl, hpost, hledger⟩ := chargeAttempt_runs hcharge
  have hset := hframe.settling_ledger hledger
  have hres₂ : s₂.reserved + row.data.holds = s.reserved +
      (finalizedEnvelope row.data.completed o savedAt).holds := by
    have hsame : s₂.reserved = s₁.reserved := by
      rw [hledger]
      rfl
    rw [hsame, finalizedEnvelope, finished_holds, chargedWith_holds, ← completed_holds hv.held]
    exact hres
  obtain ⟨hrep, hl⟩ := saveAttempt_replaces hs hsave hrow (chargedWith_plan _ _) hset hres₂
  exact .inr ⟨hproceed, hrep, hpost.congr hframe.usageLedger hl⟩

/-! ### `MarkAccepted` -/

/-- The row `MarkAccepted` writes. -/
def acceptedRow (row : AttemptRow) (acceptedEvidence : String) (savedAt : ℤ) : AttemptRow :=
  row.saved (row.data.completed.accept acceptedEvidence savedAt) .accepted

/-- **`MarkAccepted`**: a dispatched attempt becomes accepted; an accepted one
stays as it is. -/
theorem markAccepted_runs {ev : String} (hs : WellFormed s)
    (h : Runs (markAccepted permit ev savedAt) s u s') :
    s' = s ∨ ∃ row, row.state = .dispatchIntent ∧
      Replaced s s' ⟨permit.tenantID, permit.attemptID⟩ row (acceptedRow row ev savedAt) ∧
      s'.usageLedger = s.usageLedger := by
  simp only [markAccepted, runs_require_bind, runs_get_bind, runs_liftE_bind,
    runs_require, runs_ite, beq_iff_eq] at h
  obtain ⟨-, ⟨env, state, version⟩, hload, h⟩ := h
  obtain ⟨row, hrow, rfl, rfl, rfl⟩ := loadAttempt_ok hload
  rcases h with ⟨-, -, rfl⟩ | ⟨-, hstate, -, hsave⟩
  · exact .inl rfl
  have hres : s.reserved + row.data.holds =
      s.reserved + (row.data.completed.accept ev savedAt).holds := by
    rw [← completed_holds (hs _ _ hrow).held]
    rfl
  exact .inr ⟨row, hstate,
    saveAttempt_replaces hs hsave hrow rfl (CountersOnly.refl s).settling hres⟩

/-! ### `Reconcile` -/

/-- A reconciliation sets the holds it has evidence for and keeps the others. -/
def reconciledHold (charge tokens : Option ℤ) (a : Allowance) (held : ℤ) : ℤ :=
  (reconcileTarget charge tokens a).getD held

theorem movesHold_reconcileHold (charge tokens : Option ℤ) :
    MovesHold (reconciledHold charge tokens) (reconcileHold charge tokens) := by
  intro env env' a i s s' h hheld hrun
  unfold reconcileHold at hrun
  rcases ht : reconcileTarget charge tokens a with - | target
  · simp only [ht, runs_pure] at hrun
    obtain ⟨rfl, rfl⟩ := hrun
    rw [reconciledHold, ht]
    exact ⟨(setHeld_of_getElem? hheld).symm, CountersOnly.refl s, rfl⟩
  · simp only [ht, runs_bind, runs_orFail, runs_ite] at hrun
    obtain ⟨_, _, ⟨-, rfl⟩, hadj⟩ := hrun
    rw [reconciledHold, ht]
    rcases hadj with ⟨-, hadj⟩ | ⟨-, hadj⟩ <;> exact adjustHoldMode_runs hadj

/-- The holds after a reconciliation. -/
def reconciledHeld (env : AttemptEnvelope) (r : Reconciliation) (charge : Option ℤ) : List ℤ :=
  List.zipWith (reconciledHold charge (reconciledTokens r)) env.plan.allowances env.held

/-- The row `Reconcile` writes. -/
def reconciledRow (row : AttemptRow) (r : Reconciliation) (charge : Option ℤ)
    (tenantID admission : String) (savedAt : ℤ) : AttemptRow :=
  row.saved ((row.data.completed.withHeld
      (reconciledHeld row.data.completed r charge)).reconciledWith r charge tenantID admission
      savedAt) .outcomeUnknown

/-- What a successful new reconciliation did. -/
structure ReconciledBy (s s' : Store) (tenantID admission : String) (r : Reconciliation)
    (charge : Option ℤ) (chargedAt savedAt : ℤ) (row : AttemptRow) : Prop where
  state : row.state = .outcomeUnknown
  replaced : Replaced s s' ⟨tenantID, admission⟩ row
    (reconciledRow row r charge tenantID admission savedAt)
  ledger_fresh : s.usageLedger.lookup ⟨tenantID, reconciliationEffect r.reconciliationID⟩ = none
  ledger : s'.usageLedger = s.usageLedger.insert ⟨tenantID, reconciliationEffect r.reconciliationID⟩
    ⟨admission, reconciliationEffect r.reconciliationID,
      charge.map (· - row.data.chargedCost), chargedAt⟩

theorem applyReconciliation_runs (hs : WellFormed s)
    (h : Runs (applyReconciliation t admission expected request chargedAt savedAt) s out s') :
    ∃ r charge row, ReconciledBy s s' t admission r charge chargedAt savedAt row := by
  simp only [applyReconciliation, runs_liftE_bind, runs_get_bind, runs_require_bind,
    beq_iff_eq] at h
  obtain ⟨r, -, ⟨env, state, version⟩, hload, -, -, hstate, charge, -, h⟩ := h
  obtain ⟨env₁, s₁, hloop, h⟩ := runs_bind.1 h
  obtain ⟨-, h⟩ := runs_require_bind.1 h
  obtain ⟨_, s₂, hins, h⟩ := runs_bind.1 h
  obtain ⟨_, s₃, hsave, h⟩ := runs_bind.1 h
  simp only [runs_modify_bind, runs_pure] at h
  obtain ⟨-, rfl⟩ := h
  have hload' : loadAttempt s t admission = .ok (env, state, version) := by
    rcases hl : loadAttempt s t admission with e | x <;> rw [hl] at hload
    · cases e <;> simp at hload
    · exact hload
  obtain ⟨row, hrow, rfl, rfl, rfl⟩ := loadAttempt_ok hload'
  have hv := hs _ _ hrow
  obtain ⟨rfl, hframe, hres⟩ := (movesHold_reconcileHold _ _).runs hv.completed_length hloop
  obtain ⟨hpost, hledger, hnone⟩ := runs_insertLedger hins
  have hset := hframe.settling_ledger hledger
  have hres₂ : s₂.reserved + row.data.holds = s.reserved + (((row.data.completed.withHeld
      (reconciledHeld row.data.completed r charge)).reconciledWith r charge t admission
      savedAt)).holds := by
    have hsame : s₂.reserved = s₁.reserved := by
      rw [hledger]
      rfl
    rw [hsame, ← completed_holds hv.held]
    exact hres
  obtain ⟨hrep, hl⟩ := saveAttempt_replaces hs hsave hrow rfl hset hres₂
  have hsame : s₁.usageLedger = s.usageLedger := hframe.usageLedger
  rw [hsame] at hnone
  refine ⟨r, charge, row, hstate, ?_, hnone rfl, ?_⟩
  · rw [hstate] at hrep
    exact ⟨hrep.found, hrep.attempts, hrep.reserved, hrep.rows, by rw [hrep.frame]⟩
  · show s₃.usageLedger = _
    rcases hpost with ⟨old, hold, -⟩ | ⟨-, hins', -⟩
    · rw [hsame, hnone rfl] at hold
      cases hold
    · rw [hl, hins', hsame]
      rfl

/-- **`Reconcile`**: a stored reconciliation is answered again and nothing
changes, or an attempt with unknown outcome is corrected. -/
theorem reconcile_runs {principal : Principal} (hs : WellFormed s)
    (h : Runs (reconcile principal admission expected request chargedAt savedAt) s out s') :
    s' = s ∨ ∃ t r charge row, ReconciledBy s s' t admission r charge chargedAt savedAt row := by
  simp only [reconcile, runs_require_bind, runs_get_bind, runs_liftE_bind] at h
  obtain ⟨-, current, -, -, -, h⟩ := h
  rcases hprior : s.reconciliations.lookup (current.tenantID, request.reconciliationID)
    with - | prior
  · rw [hprior] at h
    obtain ⟨r, charge, row, hby⟩ := applyReconciliation_runs hs h
    exact .inr ⟨_, r, charge, row, hby⟩
  · simp only [hprior, runs_require_bind, runs_pure] at h
    obtain ⟨-, -, rfl⟩ := h
    exact .inl rfl

/-! ### `RunMaintenance` -/

/-- A sweep gives back what is held of concurrency. -/
def releasedHold (a : Allowance) (held : ℤ) : ℤ :=
  if a.kind = .concurrency ∧ 0 < held then 0 else held

theorem movesHold_releaseConcurrency : MovesHold releasedHold releaseConcurrency := by
  intro env env' a i s s' h hheld hrun
  simp only [releaseConcurrency, hheld, runs_ite, runs_pure] at hrun
  rcases hrun with ⟨hc, hadj⟩ | ⟨hc, rfl, rfl⟩
  · rw [releasedHold, if_pos hc]
    exact adjustHoldMode_runs hadj
  · rw [releasedHold, if_neg hc]
    exact ⟨(setHeld_of_getElem? hheld).symm, CountersOnly.refl s, rfl⟩

/-- The row a sweep writes. -/
def sweptRow (row : AttemptRow) (now : ℤ) : AttemptRow :=
  row.saved ((row.data.withHeld
    (List.zipWith releasedHold row.data.plan.allowances row.data.held)).released now)
    .outcomeUnknown

/-- The sweep of one attempt that was eligible. -/
structure Swept (now : ℤ) (s s' : Store) (k : AttemptKey) (row : AttemptRow) : Prop where
  eligible : sweepable (now - attemptCancellationGraceSeconds) row = true
  replaced : Replaced s s' k row (sweptRow row now)
  usageLedger : s'.usageLedger = s.usageLedger

theorem sweepAttempt_runs (hs : WellFormed s) (hrow : s.attempts.lookup k = some row)
    (helig : sweepable (now - attemptCancellationGraceSeconds) row = true)
    (h : Runs (sweepAttempt now row) s u s') : Swept now s s' k row := by
  simp only [sweepAttempt, runs_bind] at h
  obtain ⟨env, s₁, hloop, hsave⟩ := h
  obtain ⟨rfl, hframe, hres⟩ := movesHold_releaseConcurrency.runs (hs k row hrow).held hloop
  obtain ⟨hrep, hl⟩ := saveAttempt_replaces hs hsave hrow rfl hframe.settling hres
  exact ⟨helig, hrep, hl.trans hframe.usageLedger⟩

/-- Some attempt was swept. -/
def SweepStep (now : ℤ) (s s' : Store) : Prop := ∃ k row, Swept now s s' k row

theorem Replaced.wellFormed {row' : AttemptRow} (h : Replaced s s' k row row') (hs : WellFormed s)
    (hv : row'.Valid k) : WellFormed s' :=
  hs.insert hv h.attempts

theorem sweptRow_valid (hv : row.Valid k) : (sweptRow row now).Valid k :=
  saved_valid hv rfl (by simp [AttemptEnvelope.released, hv.held])

theorem SweepStep.wellFormed (h : SweepStep now s s') (hs : WellFormed s) : WellFormed s' := by
  obtain ⟨k, row, hsw⟩ := h
  exact hsw.replaced.wellFormed hs (sweptRow_valid (hs k row hsw.replaced.found))

theorem mem_pendingAttempts {cutoff : ℤ} (h : (k, row) ∈ pendingAttempts s cutoff) :
    s.attempts.lookup k = some row ∧ sweepable cutoff row = true := by
  have hmem := mem_of_mem_take h
  rw [mem_insertionSort] at hmem
  exact mem_select_iff.1 hmem

theorem pendingAttempts_nodup (s : Store) (cutoff : ℤ) :
    ((pendingAttempts s cutoff).map Prod.fst).Nodup := by
  have hperm := (perm_insertionSort (fun a b : AttemptKey × AttemptRow =>
    a.2.deadline < b.2.deadline ∨ a.2.deadline = b.2.deadline ∧
      [a.1.tenantID, a.1.attemptID] ≤ [b.1.tenantID, b.1.attemptID])
    (Table.select (fun _ row => sweepable cutoff row) s.attempts)).map Prod.fst
  have hnodup := hperm.nodup_iff.2 (nodup_keys_select _ s.attempts)
  rw [pendingAttempts, map_take]
  exact hnodup.sublist (take_sublist _ _)

/-- The attempts a maintenance run at `now` looks at. -/
def dueAttempts (s : Store) (now : ℤ) : List (AttemptKey × AttemptRow) :=
  pendingAttempts s (now - attemptCancellationGraceSeconds)

/-- The sweep loop, started in `s`, has swept the attempts `done` and reached `t`. -/
structure SweepLoop (now : ℤ) (s : Store) (done : List (AttemptKey × AttemptRow)) (t : Store) :
    Prop where
  reach : Relation.ReflTransGen (SweepStep now) s t
  wellFormed : WellFormed t
  swept : ∀ e ∈ done, t.attempts.lookup e.1 = some (sweptRow e.2 now)
  rest : ∀ k, k ∉ done.map Prod.fst → t.attempts.lookup k = s.attempts.lookup k

section SweepLoop

variable {now : ℤ} {s t t' : Store} {done : List (AttemptKey × AttemptRow)}
  {e : AttemptKey × AttemptRow}

theorem SweepLoop.start (now : ℤ) (hs : WellFormed s) : SweepLoop now s [] s where
  reach := .refl
  wellFormed := hs
  swept := by simp
  rest := fun _ _ => rfl

/-- An attempt that is still to be swept has the row the query read. -/
theorem SweepLoop.next_found (h : SweepLoop now s done t)
    (hpre : done ++ [e] <+: dueAttempts s now) :
    t.attempts.lookup e.1 = some e.2 ∧
      sweepable (now - attemptCancellationGraceSeconds) e.2 = true := by
  have hmem : (e.1, e.2) ∈ dueAttempts s now := hpre.subset (mem_append_right done mem_cons_self)
  obtain ⟨hrow, helig⟩ := mem_pendingAttempts hmem
  have hnd := (pendingAttempts_nodup s (now - attemptCancellationGraceSeconds)).sublist
    (hpre.sublist.map Prod.fst)
  rw [map_append, nodup_append] at hnd
  have hnew : e.1 ∉ done.map Prod.fst := fun hmem => hnd.2.2 e.1 hmem e.1 (by simp) rfl
  exact ⟨(h.rest e.1 hnew).trans hrow, helig⟩

theorem SweepLoop.next (h : SweepLoop now s done t) (hsw : Swept now t t' e.1 e.2) :
    SweepLoop now s (done ++ [e]) t' := by
  have hstep : SweepStep now t t' := ⟨e.1, e.2, hsw⟩
  refine ⟨h.reach.tail hstep, hstep.wellFormed h.wellFormed, ?_, ?_⟩
  · intro e' he'
    rw [hsw.replaced.attempts]
    by_cases hk : e'.1 = e.1
    · -- a swept attempt is not swept again, so it is the last one
      rcases mem_append.1 he' with hdone | hlast
      · have hold := h.swept e' hdone
        rw [hk, hsw.replaced.found] at hold
        have helig := hsw.eligible
        rw [Option.some.inj hold] at helig
        simp [sweepable, sweptRow, AttemptRow.saved, AttemptEnvelope.released] at helig
      · obtain rfl := mem_singleton.1 hlast
        exact AList.lookup_insert _
    · rw [AList.lookup_insert_ne hk]
      rcases mem_append.1 he' with hdone | hlast
      · exact h.swept e' hdone
      · exact absurd (congrArg Prod.fst (mem_singleton.1 hlast)) hk
  · intro k hk
    simp only [map_append, map_cons, map_nil, mem_append, mem_singleton, not_or] at hk
    rw [hsw.replaced.attempts, AList.lookup_insert_ne hk.2]
    exact h.rest k hk.1

end SweepLoop

/-- The sweep loop sweeps the eligible attempts one by one. -/
theorem sweepLoop_runs {v : Unit} (hs : WellFormed s)
    (h : Runs ((dueAttempts s now).foldlM (fun _ item => sweepAttempt now item.2) u) s v s') :
    SweepLoop now s (dueAttempts s now) s' := by
  refine runs_foldlM_induct (fun done _ t => SweepLoop now s done t) h (.start now hs) ?_
  intro done e _ t _ t' hpre hloop hrun
  obtain ⟨hrow, helig⟩ := hloop.next_found hpre
  exact hloop.next (sweepAttempt_runs hloop.wellFormed hrow helig hrun)

/-- Rows were deleted: settled attempts past their retention, and charges
past theirs. -/
structure RetiredBy (now : ℤ) (s s' : Store) : Prop where
  frame : s' = { s with attempts := s'.attempts, usageLedger := s'.usageLedger }
  kept : ∀ k row, s'.attempts.lookup k = some row → s.attempts.lookup k = some row
  deleted : ∀ k row, s.attempts.lookup k = some row →
    s'.attempts.lookup k = some row ∨ s'.attempts.lookup k = none ∧ row.state = .settled
  ledger : s'.usageLedger = (s.retireCharges (now - usageRetentionSeconds)).usageLedger

/-- Settled attempts were deleted. -/
structure Retires (s s' : Store) : Prop where
  frame : s' = { s with attempts := s'.attempts }
  kept : ∀ k row, s'.attempts.lookup k = some row → s.attempts.lookup k = some row
  deleted : ∀ k row, s.attempts.lookup k = some row →
    s'.attempts.lookup k = some row ∨ s'.attempts.lookup k = none ∧ row.state = .settled

theorem Retires.refl (s : Store) : Retires s s := ⟨rfl, fun _ _ => id, fun _ _ => .inl⟩

theorem retireAttempt_retires (now : ℤ) (s : Store) (item : AttemptKey × AttemptRow) :
    Retires s (Store.retireAttempt now s item) := by
  unfold Store.retireAttempt
  split
  · refine ⟨rfl, fun k row h => (lookup_deleteWhere_iff.1 h).1, fun k row h => ?_⟩
    by_cases hdel : (k == item.1 && row.state == .settled) = true
    · refine .inr ⟨Option.eq_none_iff_forall_ne_some.2 fun row' h' => ?_, by simp_all⟩
      obtain ⟨hl, hkeep⟩ := lookup_deleteWhere_iff.1 h'
      cases h.symm.trans hl
      rw [hdel] at hkeep
      cases hkeep
    · exact .inl (lookup_deleteWhere_iff.2 ⟨h, by simpa using hdel⟩)
  · exact .refl s

theorem retireAttempts_retires (now : ℤ) (l : List (AttemptKey × AttemptRow)) (s : Store) :
    Retires s (l.foldl (Store.retireAttempt now) s) := by
  induction l generalizing s with
  | nil => exact .refl s
  | cons item l ih =>
    have hstep := retireAttempt_retires now s item
    have hrest := ih (Store.retireAttempt now s item)
    refine ⟨?_, fun k row h => hstep.kept k row (hrest.kept k row h), fun k row h => ?_⟩
    · rw [foldl_cons, hrest.frame, hstep.frame]
    · rcases hstep.deleted k row h with hsame | ⟨hnone, hset⟩
      · exact hrest.deleted k row hsame
      · refine .inr ⟨Option.eq_none_iff_forall_ne_some.2 fun row' h' => ?_, hset⟩
        exact absurd (hnone.symm.trans (hrest.kept k row' h')) (by simp)

/-- **`RunMaintenance`**: eligible attempts are swept one by one, then settled
attempts and old charges are deleted. -/
theorem runMaintenance_runs (hs : WellFormed s) (h : Runs (runMaintenance now) s u s') :
    ∃ s₁, SweepLoop now s (dueAttempts s now) s₁ ∧ RetiredBy now s₁ s' := by
  simp only [runMaintenance, runs_bind, runs_get, runs_modify] at h
  obtain ⟨_, _, ⟨rfl, rfl⟩, _, s₁, hloop, _, _, rfl, rfl⟩ := h
  refine ⟨s₁, sweepLoop_runs hs hloop, ?_⟩
  have hret := retireAttempts_retires now (settledAttempts s₁) s₁
  refine ⟨?_, hret.kept, hret.deleted, ?_⟩
  · rw [Store.retireCharges, hret.frame]
  · rw [hret.frame]
    rfl

end Hoorific
