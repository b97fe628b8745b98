/-
The life of one attempt.  `RowChange` lists what one operation can do to
the row of an attempt: insert it, mark it accepted, settle it, reconcile
it, sweep it, delete it, or nothing (`execute_rowChange`).  Every statement
about the states an attempt passes through is a case split over this list:
the states that absorb (`settled`, `not_executed`, and `outcome_unknown` as
far as the state goes) and the version that counts the changes.

`execute_ledger` is the counterpart for the ledger: it gains a row of an
attempt only together with a change that leaves the attempt settled or
unknown.
-/
import Hoorific.Store.Ledger
import Hoorific.Store.Requests

namespace Hoorific

open Tx Table

/-! ### Changes of a row -/

/-- What an operation in the store `s` can do to the row of the attempt `k`. -/
inductive RowChange (s : Store) (k : AttemptKey) : Op → Option AttemptRow → Option AttemptRow → Prop
  | kept {op r} : RowChange s k op r r
  | admitted {principal submitted now planNow plan s₁ seen subject held price revision} :
      k = ⟨submitted.tenantID, submitted.attemptID⟩ →
      Runs (resolveAllowances submitted planNow) s plan s₁ →
      List.Forall₂ (fun a amount => admissionHold plan seen a = .ok amount) plan.allowances held →
      RowChange s k (.begin principal submitted now planNow) none
        (some (newAttempt plan submitted subject held price revision now))
  | accepted {permit ev savedAt row} : row.state = .dispatchIntent →
      RowChange s k (.accept permit ev savedAt) (some row) (some (acceptedRow row ev savedAt))
  | finalized {o chargedAt savedAt row} : finalizable row.state o.requested = .ok true →
      o.requested.terminal = true →
      RowChange s k (.finalize o chargedAt savedAt) (some row) (some (finalizedRow row o savedAt))
  | reconciled {principal admission expected request chargedAt savedAt r charge t row} :
      k.attemptID = admission → row.state = .outcomeUnknown →
      RowChange s k (.reconcile principal admission expected request chargedAt savedAt) (some row)
        (some (reconciledRow row r charge t admission savedAt))
  | swept {now row} : sweepable (now - attemptCancellationGraceSeconds) row = true →
      RowChange s k (.maintain now) (some row) (some (sweptRow row now))
  | retired {now row} : row.state = .settled → RowChange s k (.maintain now) (some row) none

variable {s s' : Store} {k : AttemptKey} {row row' : AttemptRow}

variable {k' : AttemptKey} {op : Op} {r : Option AttemptRow} {ops : List Op} {i j : ℕ}

/-- A replacement of some row is a change of the row under every key. -/
theorem rowChange_of_replaced (h : Replaced s s' k row row')
    (hchange : RowChange s k op (some row) (some row')) :
    RowChange s k' op (s.attempts.lookup k') (s'.attempts.lookup k') := by
  by_cases hk : k' = k
  · subst hk
    rw [h.lookup_same.1, h.lookup_same.2]
    exact hchange
  · rw [h.lookup_other hk]
    exact .kept

/-- An outcome that asks for a state it may not ask for changes nothing. -/
theorem finalize_terminal (o : AttemptOutcome) (chargedAt savedAt : ℤ) (s : Store) :
    ((Op.finalize o chargedAt savedAt).execute s).2 = s ∨ o.requested.terminal = true := by
  refine commit_induct (P := (· = s ∨ o.requested.terminal = true)) (.inl rfl) fun u s' hrun => ?_
  simp only [Op.body, finalizeAttempt, runs_require_bind, runs_get_bind, runs_liftE_bind] at hrun
  obtain ⟨-, -, -, -, hterminal, -⟩ := hrun
  exact .inr hterminal

/-- A plan that is past its deadline or does not pass the checks changes nothing. -/
theorem begin_checked (principal : Option Principal) (submitted : AttemptPlan) (now planNow : ℤ)
    (s : Store) : ((Op.begin principal submitted now planNow).execute s).2 = s ∨
      now < submitted.deadline.unix ∧ checkPlan s principal submitted planNow = .ok () := by
  refine commit_induct (P := (· = s ∨ _)) (.inl rfl) fun u s' hrun => ?_
  simp only [Op.body, runs_bind] at hrun
  obtain ⟨_, _, hbegin, -⟩ := hrun
  obtain ⟨_, _, ⟨hdeadline, -, hcheck⟩, -⟩ := beginAttempt_runs hbegin
  exact .inr ⟨hdeadline, hcheck⟩

/-- **Every operation** does one of these to every row. -/
theorem execute_rowChange (op : Op) (hs : WellFormed s) (k : AttemptKey) :
    RowChange s k op (s.attempts.lookup k) ((op.execute s).2.attempts.lookup k) := by
  have heffect := execute_effect op hs
  have hterminal : ∀ o chargedAt savedAt, op = .finalize o chargedAt savedAt →
      (op.execute s).2 = s ∨ o.requested.terminal = true := by
    rintro o chargedAt savedAt rfl
    exact finalize_terminal o chargedAt savedAt s
  generalize (op.execute s).2 = s' at heffect hterminal ⊢
  cases heffect with
  | policy h =>
    rw [h.attempts]
    exact .kept
  | configured h =>
    rw [h]
    exact .kept
  | @admitted principal submitted now planNow plan s₁ subject held price _ hres hpolicy hplan
      hheld hadm =>
    have hkey : (⟨plan.tenantID, plan.attemptID⟩ : AttemptKey) =
        ⟨submitted.tenantID, submitted.attemptID⟩ := by rw [hplan]
    by_cases hk : k = ⟨plan.tenantID, plan.attemptID⟩
    · subst hk
      rw [hadm.attempts, AList.lookup_insert, ← hpolicy.attempts, hadm.fresh]
      exact .admitted hkey hres hheld
    · rw [hadm.attempts, AList.lookup_insert_ne hk, hpolicy.attempts]
      exact .kept
  | accepted hstate hrep _ => exact rowChange_of_replaced hrep (.accepted hstate)
  | finalized hfin hrep _ =>
    rcases hterminal _ _ _ rfl with rfl | hterminal
    · exact .kept
    · exact rowChange_of_replaced hrep (.finalized hfin hterminal)
  | reconciled hby => exact rowChange_of_replaced hby.replaced (.reconciled rfl hby.state)
  | @maintained now s₁ hsweeps hret =>
    rcases hrow₁ : s₁.attempts.lookup k with - | row₁
    · have hnone : s'.attempts.lookup k = none := by
        rcases hrow' : s'.attempts.lookup k with - | row'
        · rfl
        · exact absurd ((hret.kept k row' hrow').symm.trans hrow₁) (Option.some_ne_none row')
      rcases sweeps_lookup hsweeps k with hsame | ⟨row, -, -, hrow⟩
      · rw [hnone, ← hsame, hrow₁]
        exact .kept
      · exact absurd (hrow.symm.trans hrow₁) (Option.some_ne_none _)
    · rcases sweeps_lookup hsweeps k with hsame | ⟨row, hrow, helig, hrow'⟩
      · rw [← hsame, hrow₁]
        rcases hret.deleted k row₁ hrow₁ with hkept | ⟨hgone, hsettled⟩
        · rw [hkept]
          exact .kept
        · rw [hgone]
          exact .retired hsettled
      · -- a swept row is unknown, so retention leaves it
        cases hrow'.symm.trans hrow₁
        rcases hret.deleted k _ hrow₁ with hkept | ⟨-, hsettled⟩
        · rw [hrow, hkept]
          exact .swept helig
        · cases hsettled

/-! ### States and versions -/

theorem finalizable_states {state next : AttemptState} (h : finalizable state next = .ok true) :
    state = .dispatchIntent ∨ state = .accepted ∨ state = .jobPending := by
  unfold finalizable at h
  cases state with
  | dispatchIntent => exact .inl rfl
  | accepted => exact .inr (.inl rfl)
  | jobPending => exact .inr (.inr rfl)
  | settled | notExecuted | outcomeUnknown =>
    simp only at h
    split at h <;> cases h
  | other => cases h

theorem sweepable_states {cutoff : ℤ} (h : sweepable cutoff row = true) :
    row.state = .dispatchIntent ∨ row.state = .accepted ∨ row.state = .outcomeUnknown := by
  simp only [sweepable, Bool.and_eq_true, Bool.or_eq_true, beq_iff_eq] at h
  rcases h.2 with (hdispatch | haccepted) | ⟨hunknown, -⟩
  · exact .inl hdispatch
  · exact .inr (.inl haccepted)
  · exact .inr (.inr hunknown)

/-- A row that changes moves on by one version. -/
theorem RowChange.version (h : RowChange s k op (some row) (some row')) :
    row' = row ∨ row'.version = row.version + 1 := by
  cases h with
  | kept => exact .inl rfl
  | accepted | finalized | reconciled | swept => exact .inr rfl

/-- A row in an absorbing state stays as it is or is deleted. -/
theorem RowChange.absorbed (h : RowChange s k op (some row) r)
    (hstate : row.state = .settled ∨ row.state = .notExecuted) : r = some row ∨ r = none := by
  have hnot : ∀ state, row.state = state → state = .settled ∨ state = .notExecuted := by
    rintro state rfl
    exact hstate
  cases h with
  | kept => exact .inl rfl
  | retired => exact .inr rfl
  | accepted h | reconciled _ h => exact absurd (hnot _ h) (by simp)
  | finalized h =>
    rcases finalizable_states h with h | h | h <;> exact absurd (hnot _ h) (by simp)
  | swept h =>
    rcases sweepable_states h with h | h | h <;> exact absurd (hnot _ h) (by simp)

theorem RowChange.unknown (h : RowChange s k op (some row) r) (hstate : row.state = .outcomeUnknown)
    : ∃ row', r = some row' ∧ row'.state = .outcomeUnknown := by
  cases h with
  | kept => exact ⟨row, rfl, hstate⟩
  | reconciled | swept => exact ⟨_, rfl, rfl⟩
  | accepted h | retired h =>
    rw [hstate] at h
    cases h
  | finalized h =>
    rw [hstate] at h
    rcases finalizable_states h with h | h | h <;> cases h

/-! ### Rows of the ledger -/

theorem ledgerRows_insert {lk : LedgerKey} {entry : LedgerRow}
    (h : s'.usageLedger = s.usageLedger.insert lk entry)
    (hother : ¬ (lk.tenantID = k.tenantID ∧ entry.attemptID = k.attemptID)) :
    ∀ e ∈ s'.ledgerRows k, e ∈ s.ledgerRows k := by
  rintro ⟨lk', entry'⟩ he
  rw [mem_ledgerRows, h] at he
  rw [mem_ledgerRows]
  obtain ⟨hlookup, hsame⟩ := he
  rcases lookup_insert_iff.1 hlookup with ⟨rfl, rfl⟩ | ⟨-, hold⟩
  · exact absurd hsame hother
  · exact ⟨hold, hsame⟩

theorem key_of_parts {t id : String} (h : t = k.tenantID ∧ id = k.attemptID) : k = ⟨t, id⟩ := by
  obtain ⟨rfl, rfl⟩ := h
  rfl

/-- **The ledger gains a row of an attempt only** together with a change that
leaves the attempt settled or unknown. -/
theorem execute_ledger (op : Op) (hs : WellFormed s) (k : AttemptKey) :
    (∀ e ∈ (op.execute s).2.ledgerRows k, e ∈ s.ledgerRows k) ∨
      ∃ row, (op.execute s).2.attempts.lookup k = some row ∧
        (row.state = .settled ∨ row.state = .outcomeUnknown) := by
  have heffect := execute_effect op hs
  generalize (op.execute s).2 = s' at heffect ⊢
  have hunchanged : s'.usageLedger = s.usageLedger →
      ∀ e ∈ s'.ledgerRows k, e ∈ s.ledgerRows k := by
    intro hsame e he
    rw [ledgerRows_congr hsame] at he
    exact he
  cases heffect with
  | policy h => exact .inl (hunchanged h.usageLedger)
  | configured h =>
    rw [h] at hunchanged ⊢
    exact .inl (hunchanged rfl)
  | admitted _ _ hpolicy _ _ hadm =>
    refine .inl (hunchanged (Eq.trans ?_ hpolicy.usageLedger))
    rw [hadm.frame]
  | accepted _ _ hledger => exact .inl (hunchanged hledger)
  | @finalized o chargedAt savedAt row hfin hrep hpost =>
    rcases hcharges : row.data.completed.charges (evidence row.data.completed o) with - | cost
    all_goals rw [hcharges] at hpost
    · exact .inl (hunchanged hpost)
    · by_cases hk : k = ⟨o.tenantID, o.attemptID⟩
      · subst hk
        refine .inr ⟨_, hrep.lookup_same.2, ?_⟩
        unfold AttemptEnvelope.charges at hcharges
        split at hcharges
        next hnext => exact hnext.1
        next => cases hcharges
      · rcases hpost with ⟨_, _, hsame⟩ | hinsert
        · exact .inl (hunchanged hsame)
        · exact .inl (ledgerRows_insert hinsert.2.1 fun hsame => hk (key_of_parts hsame))
  | @reconciled _ admission _ _ chargedAt savedAt t r charge row hby =>
    by_cases hk : k = ⟨t, admission⟩
    · subst hk
      exact .inr ⟨_, hby.replaced.lookup_same.2, .inr rfl⟩
    · exact .inl (ledgerRows_insert hby.ledger fun hsame => hk (key_of_parts hsame))
  | @maintained now s₁ hsweeps hret =>
    left
    rintro ⟨lk, entry⟩ he
    rw [mem_ledgerRows, hret.ledger] at he
    obtain ⟨hlookup, hparts⟩ := he
    rw [mem_ledgerRows, ← sweeps_usageLedger hsweeps]
    exact ⟨(lookup_deleteWhere_iff.1 hlookup).1, hparts⟩

/-! ### Runs -/

/-- One step of a run of the accounting store. -/
def Op.step (s : Store) (op : Op) : Store := (op.execute s).2

theorem run_wellFormed (ops : List Op) : WellFormed (run Op.step {} ops) :=
  run_inv_of_step (I := WellFormed) (fun _ op hs => (execute_effect op hs).wellFormed hs)
    wellFormed_empty ops

/-- The row a step leaves comes from a change of the row before. -/
theorem rowChange_of_step (hs : WellFormed s) (hrow : (op.step s).attempts.lookup k = some row) :
    RowChange s k op (s.attempts.lookup k) (some row) := by
  rw [← hrow]
  exact execute_rowChange op hs k

/-- **Invariant rule for rows**: what every change of a row keeps, in a step
that meets `C`, holds of every row stored in a run along `C`. -/
theorem run_rows {C : Store → Op → Prop} {P : AttemptRow → Prop}
    (hstep : ∀ s op k row', WellFormed s → C s op →
      RowChange s k op (s.attempts.lookup k) (some row') →
      (∀ row, s.attempts.lookup k = some row → P row) → P row') (h : Along Op.step C {} ops) :
    ∀ k row, (run Op.step {} ops).attempts.lookup k = some row → P row := by
  have hinv : WellFormed (run Op.step {} ops) ∧
      ∀ k row, (run Op.step {} ops).attempts.lookup k = some row → P row := by
    refine run_inv (I := fun s => WellFormed s ∧
      ∀ k row, s.attempts.lookup k = some row → P row) ?_ ?_ h
    · rintro s op ⟨hs, hrows⟩ hc
      refine ⟨(execute_effect op hs).wellFormed hs, fun k row' hrow' => ?_⟩
      exact hstep s op k row' hs hc (rowChange_of_step hs hrow') (hrows k)
    · exact ⟨wellFormed_empty, fun _ _ h => absurd h (by simp)⟩
  exact hinv.2

/-- From one state of a run to the next, a row changes as some operation
changes it; where the run is over it is kept. -/
theorem run_rowChange (ops : List Op) (n : ℕ) (k : AttemptKey) :
    ∃ op, RowChange (run Op.step {} (ops.take n)) k op
      ((run Op.step {} (ops.take n)).attempts.lookup k)
      ((run Op.step {} (ops.take (n + 1))).attempts.lookup k) := by
  rcases run_take_succ_cases Op.step {} ops n with hover | ⟨op, -, hnext⟩
  · rw [hover]
    exact ⟨.maintain 0, .kept⟩
  · rw [hnext]
    exact ⟨op, execute_rowChange op (run_wellFormed (ops.take n)) k⟩

/-- A row in an absorbing state stays as long as it is stored. -/
theorem run_absorbed (hij : i ≤ j)
    (hrow : (run Op.step {} (ops.take i)).attempts.lookup k = some row)
    (hstate : row.state = .settled ∨ row.state = .notExecuted)
    (hstored : ∀ m, i ≤ m → m ≤ j → k ∈ (run Op.step {} (ops.take m)).attempts) :
    (run Op.step {} (ops.take j)).attempts.lookup k = some row := by
  induction j, hij using Nat.le_induction with
  | base => exact hrow
  | succ j hij ih =>
    have hbefore := ih fun m hm hm' => hstored m hm (Nat.le_succ_of_le hm')
    have hmem := hstored (j + 1) (Nat.le_succ_of_le hij) (le_refl _)
    obtain ⟨op, hchange⟩ := run_rowChange ops j k
    rw [hbefore] at hchange
    rcases hchange.absorbed hstate with hsame | hgone
    · exact hsame
    · exact absurd hmem (notMem_of_lookup hgone)

theorem run_unknown (hij : i ≤ j)
    (hrow : (run Op.step {} (ops.take i)).attempts.lookup k = some row)
    (hstate : row.state = .outcomeUnknown) :
    ∃ row', (run Op.step {} (ops.take j)).attempts.lookup k = some row' ∧
      row'.state = .outcomeUnknown := by
  induction j, hij using Nat.le_induction with
  | base => exact ⟨row, hrow, hstate⟩
  | succ j hij ih =>
    obtain ⟨row₁, hrow₁, hstate₁⟩ := ih
    obtain ⟨op, hchange⟩ := run_rowChange ops j k
    rw [hrow₁] at hchange
    exact hchange.unknown hstate₁

/-! ### Entries of the ledger stay -/

variable {lk : LedgerKey} {entry : LedgerRow} {more : List Op}

theorem step_keeps_entry (hs : WellFormed s) (he : s.usageLedger.lookup lk = some entry)
    (hkept : ∀ now, op = .maintain now → entry.createdAt < now - usageRetentionSeconds →
      hasPrefix entry.effectKind "reconciliation:" = true) :
    (op.step s).usageLedger.lookup lk = some entry := by
  have heffect := execute_effect op hs
  rw [Op.step]
  generalize (op.execute s).2 = s' at heffect ⊢
  have hinsert : ∀ lk' entry', s.usageLedger.lookup lk' = none →
      (s.usageLedger.insert lk' entry').lookup lk = some entry := by
    intro lk' entry' hnone
    refine lookup_insert_iff.2 (.inr ⟨?_, he⟩)
    rintro rfl
    cases he.symm.trans hnone
  cases heffect with
  | policy h => rwa [h.usageLedger]
  | accepted _ _ hledger => rwa [hledger]
  | configured h => rwa [h]
  | admitted _ _ hpolicy _ _ hadm => rwa [hadm.frame, hpolicy.usageLedger]
  | @finalized o _ _ row _ _ hpost =>
    rcases hcharges : row.data.completed.charges (evidence row.data.completed o) with - | cost
    all_goals rw [hcharges] at hpost
    · rwa [hpost]
    · rcases hpost with ⟨_, _, hsame⟩ | ⟨hnone, hposted, -⟩
      · rwa [hsame]
      · rw [hposted]
        exact hinsert _ _ hnone
  | reconciled hby =>
    rw [hby.ledger]
    exact hinsert _ _ hby.ledger_fresh
  | @maintained now s₁ hsweeps hret =>
    rw [hret.ledger, Store.retireCharges, lookup_deleteWhere_iff, sweeps_usageLedger hsweeps]
    exact ⟨he, by simpa using hkept now rfl⟩

/-- **The ledger is kept**: a charge until its retention is over, a
reconciliation for ever. -/
theorem ledger_entry_kept (he : (run Op.step {} ops).usageLedger.lookup lk = some entry)
    (hkept : ∀ now, .maintain now ∈ more → entry.createdAt < now - usageRetentionSeconds →
      hasPrefix entry.effectKind "reconciliation:" = true) :
    (run Op.step {} (ops ++ more)).usageLedger.lookup lk = some entry := by
  rw [run_append]
  refine (run_inv (I := fun s => WellFormed s ∧ s.usageLedger.lookup lk = some entry)
    (C := fun _ op => op ∈ more) ?_ ⟨run_wellFormed ops, he⟩ (Along.of_mem fun _ h => h)).2
  rintro s op ⟨hs, he⟩ hop
  refine ⟨(execute_effect op hs).wellFormed hs, step_keeps_entry hs he ?_⟩
  rintro now rfl
  exact hkept now hop

theorem ledger_entry_kept_reconciled : ∃ entry,
    (run Op.step {} (reconciledThenCharged "y" ++ [.maintain (10 ^ 12)])).usageLedger.lookup
      ⟨"t", reconciliationEffect "charge"⟩ = some entry :=
  ⟨_, ledger_entry_kept rfl fun _ _ _ => rfl⟩

end Hoorific
