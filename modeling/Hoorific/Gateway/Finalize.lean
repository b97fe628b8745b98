/-
Finalizing an attempt more than once.  `Gateway.finalize` repeats
`FinalizeAttempt` until it sees it succeed, and `settleNativeJob` runs
again when its first run ended between `FinalizeAttempt` and `UpdateJob`.
Both count on `FinalizeAttempt` accepting the same outcome a second time.

`FinalizeAttempt` recognizes a repetition by comparing the stored state
with the state the outcome asks for.  The two differ exactly when the
outcome was demoted: it asked for `settled` and lacked a cost or a token
total that the allowances of the plan need, and `outcome_unknown` was
stored.  `Demotes` says this of the outcome and the store before the first
call; `finalizeAttempt_repeats` and `finalizeAttempt_not_repeated` say what
the second call then does, and the retry loops follow.
-/
import Hoorific.Lib.Retry
import Hoorific.Jobs.Native
import Hoorific.Store.Runs

namespace Hoorific

open Tx

/-! ### The callers -/

/-- `FinalizeAttempt` under `WithTx`, as a call with the two clock readings
it takes. -/
def finalizeCall (o : AttemptOutcome) (clock : ℤ × ℤ) (s : Store) : Bool × Store :=
  match commit (finalizeAttempt o clock.1 clock.2) s with
  | (.ok _, s') => (true, s')
  | (.error _, s') => (false, s')

/-- `Gateway.finalize`: the tries made before the deadline. -/
def Gateway.finalize (o : AttemptOutcome) (tries : List (Delivery (ℤ × ℤ))) (s : Store) :
    Bool × Store :=
  retry (finalizeCall o) tries s

/-- `settleNativeJob`, with the clock readings of its calls. -/
def settleNativeJob (m : CaseMap) (postgres : Bool) (j : Job) (attemptID owner : String)
    (now : Time) (clock : ℤ × ℤ) (closedAt updatedAt : Time) (s : Store × Jobs) :
    Except StoreError Unit × Store × Jobs :=
  if j.leaseUntil.nanos ≤ now.nanos then (.error (.plain "native job lease expired"), s)
  else match commit (finalizeAttempt (settlementOutcome m j attemptID) clock.1 clock.2) s.1 with
    | (.error e, store) => (.error e, store, s.2)
    | (.ok _, store) =>
      let (result, jobs) := commit (updateJob postgres (j.settled closedAt) owner j.fence
        updatedAt) s.2
      (result, store, jobs)

/-! ### When an outcome is demoted -/

/-- The state of an attempt that an outcome can still settle. -/
def AttemptState.unsettled (state : AttemptState) : Bool :=
  state == .dispatchIntent || state == .accepted || state == .jobPending

/-- The usage of an outcome prices the attempt. -/
def AttemptOutcome.priced (o : AttemptOutcome) (price : Option PriceSchedule) : Bool :=
  (normalizeUsage o.usage).2.1 &&
    (estimateUsageCost (normalizeUsage o.usage).1 price).toOption.isSome

/-- An outcome lacks evidence that a plan needs: its cost is negative, the
plan is limited by cost and none is given or can be estimated, or the plan
is limited by tokens and the total is not known. -/
def AttemptOutcome.lacksEvidence (o : AttemptOutcome) (plan : AttemptPlan)
    (price : Option PriceSchedule) : Bool :=
  o.actualCost.any (· < 0) ||
    plan.needs .cost && o.actualCost.isNone && !o.priced price ||
    plan.needs .tokens && !(normalizeUsage o.usage).2.2

/-- `o` asks to settle an attempt under way without the evidence its plan needs. -/
def Demotes (s : Store) (o : AttemptOutcome) : Prop :=
  o.requested = .settled ∧
    ∃ row ∈ s.attempts.lookup ⟨o.tenantID, o.attemptID⟩, row.state.unsettled = true ∧
      o.lacksEvidence row.data.plan row.data.price = true

instance (s : Store) (o : AttemptOutcome) : Decidable (Demotes s o) :=
  inferInstanceAs (Decidable (_ ∧ _))

variable {o : AttemptOutcome} {c v : ℤ} {s s' : Store} {u : Unit} {row : AttemptRow}
  {state next : AttemptState}

/-- Among the outcomes that ask for `settled`, those without evidence leave
`outcome_unknown` behind. -/
theorem evidence_next_unknown_iff (env : AttemptEnvelope) (hreq : o.requested = .settled) :
    (evidence env o).next = .outcomeUnknown ↔ o.lacksEvidence env.plan env.price = true := by
  have hsplit : (evidence env o).next = .outcomeUnknown ↔
      (rawEvidence env o).next = .outcomeUnknown ∨
        (rawEvidence env o).demoted env.plan = true := by
    unfold evidence
    simp only
    split
    next h => simp [h]
    next h => simp [h]
  rw [hsplit]
  rcases hcost : o.actualCost with - | cost
  · -- the cost is estimated from the usage
    simp [rawEvidence, hreq, hcost, Evidence.demoted, Evidence.costKnown,
      AttemptOutcome.lacksEvidence, AttemptOutcome.priced, imp_iff_not_or]
  by_cases hneg : cost < 0
  · simp [rawEvidence, hreq, hcost, hneg, AttemptOutcome.lacksEvidence]
  · simp [rawEvidence, hreq, hcost, hneg, Evidence.demoted, Evidence.costKnown,
      AttemptOutcome.lacksEvidence]

/-! ### The second call -/

/-- The checks `FinalizeAttempt` makes of an outcome before it looks at the
state of the attempt. -/
structure AttemptOutcome.Addresses (o : AttemptOutcome) (row : AttemptRow) : Prop where
  named : (o.tenantID != "" && o.attemptID != "") = true
  request : (o.requestID == "" || o.requestID == row.data.plan.requestID) = true
  terminal : o.requested.terminal = true

theorem finalizeAttempt_addresses (h : Runs (finalizeAttempt o c v) s u s')
    (hrow : s.attempts.lookup ⟨o.tenantID, o.attemptID⟩ = some row) : o.Addresses row := by
  simp only [finalizeAttempt, runs_require_bind, runs_get_bind, runs_liftE_bind] at h
  obtain ⟨hnamed, ⟨env, state, version⟩, hload, hreq, hterm, -⟩ := h
  obtain ⟨row', hrow', rfl, rfl, rfl⟩ := loadAttempt_ok hload
  cases hrow.symm.trans hrow'
  exact ⟨hnamed, hreq, hterm⟩

/-- An outcome that finds its attempt in the requested state changes nothing. -/
theorem finalizeAttempt_of_done (hs : WellFormed s)
    (hrow : s.attempts.lookup ⟨o.tenantID, o.attemptID⟩ = some row) (ho : o.Addresses row)
    (hdone : finalizable row.state o.requested = .ok false) (c v : ℤ) :
    Runs (finalizeAttempt o c v) s () s := by
  have hload := loadAttempt_of_valid hrow (hs _ _ hrow)
  simp only [finalizeAttempt, runs_bind, runs_require, runs_get, runs_liftE, runs_ite, runs_pure]
  exact ⟨(), s, ⟨ho.named, rfl⟩, s, s, ⟨rfl, rfl⟩, _, s, ⟨hload, rfl⟩, (), s, ⟨ho.request, rfl⟩,
    (), s, ⟨ho.terminal, rfl⟩, false, s, ⟨hdone, rfl⟩, .inl ⟨rfl, trivial, rfl⟩⟩

theorem finalizable_self (h : state.terminal = true) : finalizable state state = .ok false := by
  cases state with
  | settled | notExecuted | outcomeUnknown | jobPending => rfl
  | dispatchIntent | accepted | other _ => simp [AttemptState.terminal] at h

theorem finalizable_eq (h : finalizable state next = .ok false) : state = next := by
  cases state with
  | settled | notExecuted | outcomeUnknown =>
    simp only [finalizable] at h
    split at h
    next heq => exact heq
    next => cases h
  | jobPending =>
    simp only [finalizable] at h
    split at h
    next heq => exact heq.symm
    next => split at h <;> cases h
  | dispatchIntent | accepted | other _ => cases h

theorem finalizable_unsettled (h : finalizable state next = .ok true) : state.unsettled = true := by
  cases state with
  | dispatchIntent | accepted | jobPending => rfl
  | settled | notExecuted | outcomeUnknown =>
    simp only [finalizable] at h
    split at h <;> cases h
  | other _ => cases h

theorem finalizable_done (h : finalizable state next = .ok false) :
    ¬ (next = .settled ∧ state.unsettled = true) := by
  rintro ⟨rfl, hstate⟩
  cases state with
  | settled | notExecuted | outcomeUnknown | other _ => cases hstate
  | dispatchIntent | accepted | jobPending => cases h

/-- What a call leaves behind: an attempt that the same outcome addresses,
in the requested state unless the outcome was demoted. -/
theorem finalizeAttempt_leaves (hs : WellFormed s) (h : Runs (finalizeAttempt o c v) s u s') :
    WellFormed s' ∧ ∃ row, s'.attempts.lookup ⟨o.tenantID, o.attemptID⟩ = some row ∧
      o.Addresses row ∧ (¬ Demotes s o → finalizable row.state o.requested = .ok false) ∧
      (Demotes s o → row.state = .outcomeUnknown) := by
  obtain ⟨row, hrow, ⟨hdone, rfl⟩ | ⟨hopen, hrep, -⟩⟩ := finalizeAttempt_runs hs h
  · -- the attempt was in the requested state already
    refine ⟨hs, row, hrow, finalizeAttempt_addresses h hrow, fun _ => hdone, ?_⟩
    rintro ⟨hreq, row', hrow', hstate, -⟩
    cases hrow.symm.trans hrow'
    exact absurd ⟨hreq, hstate⟩ (finalizable_done hdone)
  · have hv := hs _ _ hrow
    have ho := finalizeAttempt_addresses h hrow
    have hplan : (finalizedRow row o v).data.plan = row.data.plan := chargedWith_plan _ _
    refine ⟨hrep.wellFormed hs (finalizedRow_valid hv o v), finalizedRow row o v, ?_, ?_, ?_, ?_⟩
    · rw [hrep.attempts]
      exact AList.lookup_insert _
    · exact ⟨ho.named, by rw [hplan]; exact ho.request, ho.terminal⟩
    · -- without a demotion the stored state is the requested one
      intro hnot
      have hnext : (evidence row.data.completed o).next = o.requested := by
        rcases evidence_next_cases row.data.completed o with hnext | ⟨hreq, hnext⟩
        · exact hnext
        · exact absurd ⟨hreq, row, hrow, finalizable_unsettled hopen,
            (evidence_next_unknown_iff row.data.completed hreq).1 hnext⟩ hnot
      show finalizable (evidence row.data.completed o).next o.requested = .ok false
      rw [hnext]
      exact finalizable_self ho.terminal
    · rintro ⟨hreq, row', hrow', -, hlacks⟩
      cases hrow.symm.trans hrow'
      exact (evidence_next_unknown_iff row.data.completed hreq).2 hlacks

/-- An outcome that was not demoted can be repeated, and nothing changes. -/
theorem finalizeAttempt_repeats (hs : WellFormed s) (h : Runs (finalizeAttempt o c v) s u s')
    (hnot : ¬ Demotes s o) (c' v' : ℤ) : Runs (finalizeAttempt o c' v') s' () s' := by
  obtain ⟨hs', row, hrow, ho, hdone, -⟩ := finalizeAttempt_leaves hs h
  exact finalizeAttempt_of_done hs' hrow ho (hdone hnot) c' v'

/-- A demoted outcome is refused the second time. -/
theorem finalizeAttempt_not_repeated {s'' : Store} {u' : Unit} (hs : WellFormed s)
    (h : Runs (finalizeAttempt o c v) s u s') (hdem : Demotes s o) (c' v' : ℤ) :
    ¬ Runs (finalizeAttempt o c' v') s' u' s'' := by
  intro hagain
  obtain ⟨hs', row, hrow, -, -, hstate⟩ := finalizeAttempt_leaves hs h
  obtain ⟨row', hrow', hfin⟩ := finalizeAttempt_runs hs' hagain
  cases hrow.symm.trans hrow'
  rw [hstate hdem, hdem.1] at hfin
  rcases hfin with ⟨hfin, -⟩ | ⟨hfin, -⟩ <;> cases hfin

/-! ### The callers again -/

theorem finalizeCall_of_runs (clock : ℤ × ℤ) (h : Runs (finalizeAttempt o clock.1 clock.2) s u s') :
    finalizeCall o clock s = (true, s') := by
  rw [finalizeCall, commit_ok_iff.2 h]

/-- `settleNativeJob` succeeds if its lease runs and both its transactions do. -/
theorem settleNativeJob_ok_iff {m : CaseMap} {postgres : Bool} {j : Job} {attemptID owner : String}
    {now : Time} {clock : ℤ × ℤ} {closedAt updatedAt : Time} {jobs : Jobs} :
    (settleNativeJob m postgres j attemptID owner now clock closedAt updatedAt (s, jobs)).1 = .ok ()
      ↔ now.nanos < j.leaseUntil.nanos ∧
        (∃ s', Runs (finalizeAttempt (settlementOutcome m j attemptID) clock.1 clock.2) s () s') ∧
        ∃ jobs', Runs (updateJob postgres (j.settled closedAt) owner j.fence updatedAt)
          jobs () jobs' := by
  by_cases hlease : j.leaseUntil.nanos ≤ now.nanos
  · simp [settleNativeJob, hlease, Int.not_lt.2 hlease]
  have hruns : now.nanos < j.leaseUntil.nanos := Int.not_le.1 hlease
  rcases hfin : commit (finalizeAttempt (settlementOutcome m j attemptID) clock.1 clock.2) s
    with ⟨e | u, s'⟩
  · have hnone : ¬ ∃ s', Runs (finalizeAttempt (settlementOutcome m j attemptID) clock.1
        clock.2) s () s' := by
      rintro ⟨s₁, h⟩
      rw [commit_ok_iff.2 h] at hfin
      cases hfin
    simp [settleNativeJob, hlease, hfin, hnone]
  · have hsome := commit_ok_iff.1 hfin
    rcases hupd : commit (updateJob postgres (j.settled closedAt) owner j.fence updatedAt) jobs
      with ⟨e | u', jobs'⟩
    · have hnone : ¬ ∃ jobs', Runs (updateJob postgres (j.settled closedAt) owner j.fence
          updatedAt) jobs () jobs' := by
        rintro ⟨jobs₁, h⟩
        rw [commit_ok_iff.2 h] at hupd
        cases hupd
      simp [settleNativeJob, hlease, hfin, hupd, hnone]
    · simp only [settleNativeJob, hlease, hfin, hupd, if_false, true_iff]
      exact ⟨hruns, ⟨s', hsome⟩, jobs', commit_ok_iff.1 hupd⟩

/-- **Repeating an outcome**: after a call that succeeded, in every reachable
store, the same outcome is accepted again and changes no row exactly if it
was not demoted; and exactly then the retry loop of the gateway after a lost
answer, and a second run of `settleNativeJob`, end in success. -/
theorem finalizeAttempt_again_iff (ops : List Op) (o : AttemptOutcome) (c v : ℤ) {s' : Store}
    (h : Runs (finalizeAttempt o c v) (History.after ops).store () s') :
    ((∀ c' v', ∃ s'', Runs (finalizeAttempt o c' v') s' () s'' ∧
        s''.attempts = s'.attempts ∧ s''.allowances = s'.allowances ∧
        s''.usageLedger = s'.usageLedger) ↔ ¬ Demotes (History.after ops).store o) ∧
    (∀ tries : List (Delivery (ℤ × ℤ)), tries.any Delivery.arrives = true →
      ((Gateway.finalize o (.unacknowledged (c, v) :: tries) (History.after ops).store).1 = true ↔
        ¬ Demotes (History.after ops).store o)) ∧
    (∀ m postgres j attemptID owner now clock closedAt updatedAt jobs jobs',
      settlementOutcome m j attemptID = o → now.nanos < j.leaseUntil.nanos →
      Runs (updateJob postgres (j.settled closedAt) owner j.fence updatedAt) jobs () jobs' →
      ((settleNativeJob m postgres j attemptID owner now clock closedAt updatedAt (s', jobs)).1 =
          .ok () ↔ ¬ Demotes (History.after ops).store o)) := by
  have hs := History.after_wellFormed ops
  refine ⟨⟨?_, ?_⟩, ?_, ?_⟩
  · intro hall hdem
    obtain ⟨s'', hrun, -⟩ := hall c v
    exact finalizeAttempt_not_repeated hs h hdem c v hrun
  · intro hnot c' v'
    exact ⟨s', finalizeAttempt_repeats hs h hnot c' v', rfl, rfl, rfl⟩
  · -- the first try is carried out, the others meet the state it left
    intro tries harrives
    have hfirst : Gateway.finalize o (.unacknowledged (c, v) :: tries) (History.after ops).store =
        retry (finalizeCall o) tries s' := by
      rw [Gateway.finalize, retry, finalizeCall_of_runs (c, v) h]
    rw [hfirst]
    constructor
    · intro hok hdem
      have hrefused : ∀ i, finalizeCall o i s' = (false, s') := by
        intro i
        obtain ⟨e, he⟩ := commit_refused fun _ _ => finalizeAttempt_not_repeated hs h hdem i.1 i.2
        rw [finalizeCall, he]
      rw [retry_of_refused hrefused tries] at hok
      cases hok
    · intro hnot
      have hstable : ∀ i, finalizeCall o i s' = (true, s') := fun i =>
        finalizeCall_of_runs i (finalizeAttempt_repeats hs h hnot i.1 i.2)
      rw [retry_of_stable hstable tries harrives]
  · rintro m postgres j attemptID owner now clock closedAt updatedAt jobs jobs' rfl hlease hupd
    rw [settleNativeJob_ok_iff]
    constructor
    · rintro ⟨-, ⟨s'', hrun⟩, -⟩ hdem
      exact finalizeAttempt_not_repeated hs h hdem _ _ hrun
    · intro hnot
      exact ⟨hlease, ⟨s', finalizeAttempt_repeats hs h hnot _ _⟩, jobs', hupd⟩

/-- An attempt under way in a tenant limited by tokens. -/
def tokenLimited : List Op :=
  [.configure sampleStore,
   .sync "t" "l" (some { scope := .tenant, scopeID := "t", tokensPerMinute := 100 }) 0,
   .begin none { samplePlan "r" "x" with inputBound := some 10, outputBound := some 10 } 1 1]

/-- The attempt has answered with this usage. -/
def answered (usage : Option Usage) : AttemptOutcome :=
  { tenantID := "t", requestID := "r", attemptID := "x", state := some .settled, usage := usage }

theorem counted_answer_repeats :
    let o := answered (some { input := some 3, output := some 4 })
    ∀ c v, ∃ s', Runs (finalizeAttempt o c v)
        (History.after (tokenLimited ++ [.finalize o 2 2])).store () s' ∧
      s'.usageLedger = (History.after (tokenLimited ++ [.finalize o 2 2])).store.usageLedger := by
  intro o c v
  have hnot : ¬ Demotes (History.after tokenLimited).store o := by decide
  obtain ⟨s', hrun, -, -, hledger⟩ :=
    (finalizeAttempt_again_iff tokenLimited o 2 2 (commit_ok_iff.1 rfl)).1.2 hnot c v
  exact ⟨s', hrun, hledger⟩

/-- An answer without usage is accepted once; repeated, it is refused at every
try, and the retry loop gives up. -/
theorem uncounted_answer_not_repeated :
    let o := answered none
    let s := (History.after tokenLimited).store
    (finalizeCall o (2, 2) s).1 = true ∧
      (commit (finalizeAttempt o 3 3) (finalizeCall o (2, 2) s).2).1 =
        .error (problem "attempt_already_settled" 409 "attempt already finalized") ∧
      (Gateway.finalize o [.unacknowledged (2, 2), .delivered (3, 3), .delivered (4, 4)] s).1 =
        false := by
  exact ⟨rfl, rfl, rfl⟩

end Hoorific
