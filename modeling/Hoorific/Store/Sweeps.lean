/-
Progress of the deadline sweep.  `RunMaintenance` sweeps its batch in one
transaction, so one attempt whose concurrency cannot be given back would
block the sweep of every tenant.  It cannot happen: in every reachable
store the counters cover what the stored attempts hold of concurrency
(`Covered`), because the counters are the sum over all attempts ever
inserted and no attempt holds a negative amount.

A batch has 256 attempts and a swept attempt is not eligible again, so
each run takes 256 attempts off the list of eligible ones
(`eligible_maintained`), and a run that finds none leaves nothing to give
back.
-/
import Mathlib.Algebra.Order.BigOperators.Group.Multiset
import Hoorific.Store.Capacity

namespace Hoorific

open List Tx Table

/-! ### Concurrency holds -/

/-- No hold of concurrency is negative. -/
def AttemptEnvelope.ConcurrencyNonneg (env : AttemptEnvelope) : Prop :=
  ∀ e ∈ env.holdings, e.1.kind = .concurrency → 0 ≤ e.2

/-- What is held of concurrency is in the counters. -/
def AttemptEnvelope.CoveredIn (env : AttemptEnvelope) (s : Store) : Prop :=
  ∀ key : AllowanceKey, key.kind = .concurrency → env.holds key ≤ s.reserved key

variable {env env' : AttemptEnvelope} {s s' t t' : Store} {k : AttemptKey} {row : AttemptRow}

theorem AttemptEnvelope.ConcurrencyNonneg.holds (h : env.ConcurrencyNonneg) {key : AllowanceKey}
    (hkind : key.kind = .concurrency) : 0 ≤ env.holds key := by
  rw [AttemptEnvelope.holds, sum_zipWith_heldAt]
  apply sum_nonneg
  intro amount hamount
  obtain ⟨⟨a, g⟩, he, rfl⟩ := mem_map.1 hamount
  obtain ⟨hmem, hkey⟩ := mem_filter.1 he
  have hkey : a.key env.plan.tenantID = key := by simpa using hkey
  exact h (a, g) hmem (by rw [← hkind, ← hkey]; rfl)

theorem AttemptEnvelope.ConcurrencyNonneg.setZero (h : env.ConcurrencyNonneg) (i : ℕ) :
    (env.setHeld i 0).ConcurrencyNonneg := by
  rintro ⟨a, g⟩ he hkind
  obtain ⟨n, hn⟩ := mem_iff_getElem?.1 he
  obtain ⟨ha, hg⟩ := List.getElem?_zip_eq_some.1 hn
  show 0 ≤ g
  rw [AttemptEnvelope.setHeld, withHeld_held] at hg
  by_cases hi : i = n
  · subst hi
    rw [List.getElem?_set_self (by simpa using (List.getElem?_eq_some_iff.1 hg).1)] at hg
    cases hg
    exact le_refl 0
  · rw [List.getElem?_set_ne hi] at hg
    exact h (a, g) (mem_iff_getElem?.2 ⟨n, List.getElem?_zip_eq_some.2 ⟨ha, hg⟩⟩) hkind

variable {i : ℕ} {a : Allowance} {held now : ℤ} {item : Allowance × ℕ}

theorem AttemptEnvelope.ConcurrencyNonneg.hold_le (h : env.ConcurrencyNonneg)
    (ha : env.plan.allowances[i]? = some a) (hheld : env.held[i]? = some held)
    (hkind : a.kind = .concurrency) :
    held ≤ env.holds (a.key env.plan.tenantID) := by
  have hrest : 0 ≤ (env.setHeld i 0).holds (a.key env.plan.tenantID) := (h.setZero i).holds hkind
  rw [setHeld_holds ha hheld, Pi.add_apply, Pi.single_eq_same] at hrest
  omega

/-! ### Giving back concurrency does not fail -/

theorem adjustHold_succeeds (hnonneg : env.ConcurrencyNonneg) (hcovered : env.CoveredIn s)
    (ha : env.plan.allowances[i]? = some a) (hheld : env.held[i]? = some held)
    (hkind : a.kind = .concurrency) (hpos : 0 < held) :
    ∃ env' s', Runs (adjustHold env i 0) s env' s' := by
  have hle : held ≤ s.reserved (a.key env.plan.tenantID) :=
    (hnonneg.hold_le ha hheld hkind).trans (hcovered _ hkind)
  obtain ⟨counter, hcounter, hle⟩ : ∃ counter, s.allowances.lookup (a.key env.plan.tenantID) =
      some counter ∧ held ≤ counter.reserved := by
    rw [Store.reserved] at hle
    rcases hlookup : s.allowances.lookup (a.key env.plan.tenantID) with - | counter
    all_goals rw [hlookup] at hle
    · exact absurd hle (not_le.2 hpos)
    · exact ⟨counter, rfl, hle⟩
  obtain ⟨s', hmove⟩ : ∃ s', Runs (updateReserved (a.key env.plan.tenantID) (0 - held)
      (fun reserved => decide (held - 0 ≤ reserved)) (.plain "allowance changed during settlement"))
      s () s' := ⟨_, runs_updateReserved.2 ⟨counter, hcounter, by simpa using hle, rfl⟩⟩
  refine ⟨env.setHeld i 0, s', ?_⟩
  rw [adjustHold, adjustHoldMode, runs_orFail_bind]
  refine ⟨a, ha, ?_⟩
  rw [runs_require_bind]
  refine ⟨by decide, ?_⟩
  rw [runs_orFail_bind]
  refine ⟨held, hheld, ?_⟩
  rw [if_neg hpos.ne, if_pos hpos, runs_bind]
  exact ⟨(), s', hmove, runs_pure.2 ⟨rfl, rfl⟩⟩

/-- What the sweep of an attempt keeps while it gives back its concurrency. -/
structure Releasing (row : AttemptRow) (s : Store) (env : AttemptEnvelope) (t : Store) : Prop where
  plan : env.plan = row.data.plan
  nonneg : env.ConcurrencyNonneg
  covered : env.CoveredIn t
  counters : CountersOnly s t

theorem Releasing.next (h : Releasing row s env t)
    (hrun : Runs (releaseConcurrency env item) t env' t') : Releasing row s env' t' := by
  obtain ⟨a, i⟩ := item
  rcases hheld : env.held[i]? with - | held
  · simp only [releaseConcurrency, hheld, runs_pure] at hrun
    obtain ⟨rfl, rfl⟩ := hrun
    exact h
  obtain ⟨rfl, hframe, hres⟩ := movesHold_releaseConcurrency _ _ _ _ _ _ _ hheld hrun
  refine ⟨h.plan, ?_, ?_, h.counters.trans hframe⟩
  · rw [releasedHold]
    split
    · exact h.nonneg.setZero i
    · rw [setHeld_of_getElem? hheld]
      exact h.nonneg
  · intro key hkind
    have hkey := congrFun hres key
    have hold := h.covered key hkind
    simp only [Pi.add_apply] at hkey
    omega

theorem Releasing.succeeds (h : Releasing row s env t)
    (hitem : item ∈ row.data.plan.allowances.zipIdx) (e : StoreError) :
    ¬ Fails (releaseConcurrency env item) t e := by
  obtain ⟨a, i⟩ := item
  have ha : env.plan.allowances[i]? = some a := by
    rw [h.plan]
    exact mem_zipIdx_iff_getElem?.1 hitem
  rcases hheld : env.held[i]? with - | held
  · simp [releaseConcurrency, hheld]
  simp only [releaseConcurrency, hheld]
  split
  next hc =>
    obtain ⟨env', t', hrun⟩ := adjustHold_succeeds h.nonneg h.covered ha hheld hc.1 hc.2
    exact hrun.not_fails e
  next => exact fails_pure

/-- **The sweep of an attempt succeeds** in a store whose counters cover it. -/
theorem sweepAttempt_succeeds (hs : WellFormed s) (hrow : s.attempts.lookup k = some row)
    (hnonneg : row.data.ConcurrencyNonneg) (hcovered : row.data.CoveredIn s) (now : ℤ)
    (e : StoreError) : ¬ Fails (sweepAttempt now row) s e := by
  have h0 : Releasing row s row.data s := ⟨rfl, hnonneg, hcovered, CountersOnly.refl s⟩
  rw [sweepAttempt, fails_bind]
  rintro (hloop | ⟨env, t, hloop, hsave⟩)
  · obtain ⟨item, hitem, env, t, h, hfails⟩ := fails_foldlM (Releasing row s) hloop h0
      fun _ _ _ _ _ _ h => h.next
    exact h.succeeds hitem e hfails
  · have h := runs_foldlM_inv (Releasing row s) hloop h0 fun _ _ _ _ _ _ h => h.next
    -- the row is where the plan says, at the version that was read
    have hfound : t.attempts.lookup
        ⟨(env.released now).plan.tenantID, (env.released now).plan.attemptID⟩ = some row := by
      show t.attempts.lookup ⟨env.plan.tenantID, env.plan.attemptID⟩ = some row
      rw [h.plan, (hs k row hrow).tenantID, (hs k row hrow).attemptID, h.counters.attempts, hrow]
    simp [saveAttempt, hfound] at hsave

/-! ### The counters cover the stored attempts -/

/-- The counters cover what the stored attempts hold of concurrency together. -/
structure Covered (s : Store) : Prop where
  wellFormed : WellFormed s
  nonneg : ∀ k row, s.attempts.lookup k = some row → row.data.ConcurrencyNonneg
  covered : ∀ key : AllowanceKey, key.kind = .concurrency →
    ((Table.rows s.attempts).map fun row => row.data.holds key).sum ≤ s.reserved key

theorem Covered.coveredIn (h : Covered s) (hrow : s.attempts.lookup k = some row) :
    row.data.CoveredIn s := by
  intro key hkind
  have hsum := h.covered key hkind
  rw [rows_of_lookup hrow, Multiset.map_cons, Multiset.sum_cons] at hsum
  have hrest : 0 ≤ ((Table.rows (s.attempts.erase k)).map fun row => row.data.holds key).sum := by
    apply Multiset.sum_nonneg
    intro amount hamount
    obtain ⟨other, hother, rfl⟩ := Multiset.mem_map.1 hamount
    obtain ⟨k', hk'⟩ := mem_rows_iff.1 hother
    exact (h.nonneg k' other (lookup_erase_iff.1 hk').2).holds hkind
  omega

theorem sweptRow_nonneg (h : row.data.ConcurrencyNonneg) (now : ℤ) :
    (sweptRow row now).data.ConcurrencyNonneg := by
  intro e he hkind
  have hheld : (sweptRow row now).data.held =
      List.zipWith releasedHold row.data.plan.allowances row.data.held := rfl
  have hplan : (sweptRow row now).data.plan = row.data.plan := rfl
  obtain ⟨g, hg, htarget⟩ := mem_holdings_of_moved hplan hheld he
  rw [htarget, releasedHold]
  split
  · exact le_refl 0
  · exact h _ hg hkind

/-- **Step**: a sweep keeps the counters above what is held. -/
theorem Swept.covered (h : Swept now s s' k row) (hs : Covered s) : Covered s' := by
  refine ⟨SweepStep.wellFormed ⟨k, row, h⟩ hs.wellFormed, ?_, ?_⟩
  · intro k' row' hrow'
    rw [h.replaced.attempts, lookup_insert_iff] at hrow'
    rcases hrow' with ⟨-, rfl⟩ | ⟨-, hold⟩
    · exact sweptRow_nonneg (hs.nonneg k row h.replaced.found) now
    · exact hs.nonneg k' row' hold
  · intro key hkind
    have hsum := hs.covered key hkind
    have hres := congrFun h.replaced.reserved key
    obtain ⟨hold, hnew⟩ := rows_insert_of_lookup h.replaced.found (sweptRow row now)
    rw [hold, Multiset.map_cons, Multiset.sum_cons] at hsum
    rw [h.replaced.attempts, hnew, Multiset.map_cons, Multiset.sum_cons]
    simp only [Pi.add_apply] at hres
    omega

/-- **`RunMaintenance` does not fail** in a covered store. -/
theorem runMaintenance_succeeds (hs : Covered s) (now : ℤ) :
    ∃ s', Runs (runMaintenance now) s () s' := by
  -- the batch is swept attempt by attempt, each from a covered store
  have hloop : ∀ e, ¬ Fails ((dueAttempts s now).foldlM
      (fun _ item => sweepAttempt now item.2) ()) s e := by
    intro e hfails
    obtain ⟨done, item, _, t, hpre, ⟨hloop, hcovered⟩, hfails⟩ := fails_foldlM_induct
      (fun done _ t => SweepLoop now s done t ∧ Covered t) hfails ⟨.start now hs.wellFormed, hs⟩
      fun done item _ t _ t' hpre ⟨hloop, hcovered⟩ hrun => by
        obtain ⟨hrow, helig⟩ := hloop.next_found hpre
        have hsw := sweepAttempt_runs hcovered.wellFormed hrow helig hrun
        exact ⟨hloop.next hsw, hsw.covered hcovered⟩
    obtain ⟨hrow, -⟩ := hloop.next_found hpre
    exact sweepAttempt_succeeds hcovered.wellFormed hrow (hcovered.nonneg _ _ hrow)
      (hcovered.coveredIn hrow) now e hfails
  obtain ⟨⟨⟩, s', hrun⟩ := exists_runs (m := runMaintenance now) fun e hfails => by
    simp only [runMaintenance, fails_bind, fails_get, fails_modify, runs_get,
      false_or, or_false, and_false, exists_false] at hfails
    obtain ⟨_, _, ⟨rfl, rfl⟩, hfails⟩ := hfails
    exact hloop e hfails
  exact ⟨s', hrun⟩

/-! ### Reachable stores are covered -/

variable (ops : List Op)

theorem History.after_store : (History.after ops).store = run Op.step {} ops := by
  induction ops using List.reverseRecOn with
  | nil => rfl
  | append_singleton ops op ih =>
    rw [History.after, run_append, run_append, ← ih]
    rfl

theorem History.retired_nonneg : ∀ a ∈ (History.after ops).retired, a.2.ConcurrencyNonneg := by
  induction ops using List.reverseRecOn with
  | nil =>
    intro a ha
    cases ha
  | append_singleton ops op ih =>
    rintro ⟨k, env⟩ hmem
    rw [History.after, run_append] at hmem
    rcases mem_append.1 hmem with hold | hnew
    · exact ih _ hold
    obtain ⟨row, hrow, rfl, -⟩ := mem_retiredBy.1 hnew
    change (History.after ops).store.attempts.lookup k = some row at hrow
    rw [History.after_store] at hrow
    exact (run_capacity ops k row hrow).concurrency

/-- **Run**: every reachable store is covered. -/
theorem run_covered : Covered (run Op.step {} ops) := by
  refine ⟨run_wellFormed ops, fun k row hrow => (run_capacity ops k row hrow).concurrency, ?_⟩
  intro key hkind
  have hbal := congrFun (History.sound_after ops).balanced key
  rw [Pi.multiset_sum_apply] at hbal
  simp only [History.pool, Store.pool, Multiset.map_add, Multiset.sum_add, Multiset.map_map] at hbal
  rw [History.after_store] at hbal
  have hretired : 0 ≤ ((((History.after ops).retired.map fun a => a.2.holds : List _) :
      Multiset (AllowanceKey → ℤ)).map fun f => f key).sum := by
    apply Multiset.sum_nonneg
    intro amount hamount
    obtain ⟨f, hf, rfl⟩ := Multiset.mem_map.1 hamount
    obtain ⟨a, ha, rfl⟩ := mem_map.1 (Multiset.mem_coe.1 hf)
    exact (History.retired_nonneg ops a ha).holds hkind
  rw [hbal]
  exact le_add_of_nonneg_right hretired

/-! ### Each run takes a batch off the eligible attempts -/

/-- The attempts a sweep at `now` would have to look at. -/
def eligibleAttempts (s : Store) (now : ℤ) : List (AttemptKey × AttemptRow) :=
  Table.select (fun _ row => sweepable (now - attemptCancellationGraceSeconds) row) s.attempts

theorem mem_eligibleAttempts : (k, row) ∈ eligibleAttempts s now ↔
    s.attempts.lookup k = some row ∧
      sweepable (now - attemptCancellationGraceSeconds) row = true :=
  mem_select_iff

theorem length_dueAttempts (s : Store) (now : ℤ) :
    (dueAttempts s now).length = min 256 (eligibleAttempts s now).length := by
  rw [dueAttempts, pendingAttempts, length_take, length_insertionSort]
  rfl

/-- What a run of `RunMaintenance` does to a covered store. -/
theorem maintain_sweeps (hs : Covered s) (now : ℤ) :
    ∃ s₁, SweepLoop now s (dueAttempts s now) s₁ ∧
      RetiredBy now s₁ (Op.step s (.maintain now)) := by
  obtain ⟨s', hrun⟩ := runMaintenance_succeeds hs now
  have hstep : Op.step s (.maintain now) = s' := by
    rw [Op.step, Op.execute, show commit (Op.body (.maintain now)) s = (.ok (), s') from
      commit_ok_iff.2 hrun]
  rw [hstep]
  exact runMaintenance_runs hs.wellFormed hrun

/-- **Step**: a run leaves 256 eligible attempts less, or none. -/
theorem eligible_maintained (hs : Covered s) (now : ℤ) :
    (eligibleAttempts (Op.step s (.maintain now)) now).length ≤
      (eligibleAttempts s now).length - 256 := by
  obtain ⟨s₁, hloop, hretired⟩ := maintain_sweeps hs now
  -- what is eligible afterwards was eligible before and not in the batch
  have hleft : ∀ key ∈ (eligibleAttempts (Op.step s (.maintain now)) now).map Prod.fst,
      key ∈ (eligibleAttempts s now).map Prod.fst ∧ key ∉ (dueAttempts s now).map Prod.fst := by
    intro key hkey
    obtain ⟨⟨k, row⟩, hmem, rfl⟩ := mem_map.1 hkey
    obtain ⟨hrow, helig⟩ := mem_eligibleAttempts.1 hmem
    have hrow₁ := hretired.kept k row hrow
    have hnot : k ∉ (dueAttempts s now).map Prod.fst := by
      intro hdue
      obtain ⟨⟨k', row'⟩, hmem', rfl⟩ := mem_map.1 hdue
      cases (hloop.swept _ hmem').symm.trans hrow₁
      rw [sweptRow_not_sweepable] at helig
      cases helig
    rw [hloop.rest k hnot] at hrow₁
    exact ⟨mem_map.2 ⟨(k, row), mem_eligibleAttempts.2 ⟨hrow₁, helig⟩, rfl⟩, hnot⟩
  have hdue : (dueAttempts s now).map Prod.fst ⊆ (eligibleAttempts s now).map Prod.fst := by
    intro key hkey
    obtain ⟨⟨k, row⟩, hmem, rfl⟩ := mem_map.1 hkey
    exact mem_map.2 ⟨(k, row), mem_eligibleAttempts.2 (mem_pendingAttempts hmem), rfl⟩
  have hnodup : ((eligibleAttempts (Op.step s (.maintain now)) now).map Prod.fst ++
      (dueAttempts s now).map Prod.fst).Nodup := by
    refine List.Nodup.append (nodup_keys_select _ _) (pendingAttempts_nodup s _) ?_
    intro key hkey
    exact (hleft key hkey).2
  have hlen := (hnodup.subperm fun key hkey => (mem_append.1 hkey).elim
    (fun h => (hleft key h).1) fun h => hdue h).length_le
  rw [length_append, length_map, length_map, length_map, length_dueAttempts] at hlen
  omega

/-! ### Runs at a fixed time -/

/-- The store after `ops` and `j` runs of `RunMaintenance` at `now`. -/
def maintained (now : ℤ) (j : ℕ) : Store := run Op.step {} (ops ++ List.replicate j (.maintain now))

theorem maintained_succ (now : ℤ) (j : ℕ) :
    maintained ops now (j + 1) = Op.step (maintained ops now j) (.maintain now) := by
  rw [maintained, replicate_succ', ← append_assoc, run_append]
  rfl

theorem eligible_after (now : ℤ) (j : ℕ) :
    (eligibleAttempts (maintained ops now j) now).length ≤
      (eligibleAttempts (run Op.step {} ops) now).length - 256 * j := by
  induction j with
  | zero => rw [maintained, replicate_zero, append_nil, Nat.mul_zero, Nat.sub_zero]
  | succ j ih =>
    have hstep : (eligibleAttempts (Op.step (maintained ops now j) (.maintain now)) now).length ≤
        (eligibleAttempts (maintained ops now j) now).length - 256 :=
      eligible_maintained (run_covered _) now
    rw [maintained_succ, Nat.mul_succ, ← Nat.sub_sub]
    exact hstep.trans (Nat.sub_le_sub_right ih 256)

/-- A run changes this attempt no more: it is gone, or unknown and released. -/
def Quiet (s : Store) (k : AttemptKey) : Prop :=
  ∀ row, s.attempts.lookup k = some row →
    row.state = .outcomeUnknown ∧ row.data.concurrencyReleased = true

theorem Quiet.kept (h : Quiet s k) (hs : WellFormed s) (now : ℤ) :
    (Op.step s (.maintain now)).attempts.lookup k = s.attempts.lookup k := by
  have hchange := execute_rowChange (.maintain now) hs k
  rw [Op.step]
  generalize ((Op.maintain now).execute s).2.attempts.lookup k = r' at hchange ⊢
  generalize hr : s.attempts.lookup k = r at hchange
  cases hchange with
  | kept => rfl
  | swept helig =>
    obtain ⟨hstate, hreleased⟩ := h _ hr
    simp [sweepable, hstate, hreleased] at helig
  | retired hsettled => cases (h _ hr).1.symm.trans hsettled

theorem quiet_of_changed (hs : WellFormed s)
    (hne : (Op.step s (.maintain now)).attempts.lookup k ≠ s.attempts.lookup k) :
    Quiet (Op.step s (.maintain now)) k := by
  intro row' hrow'
  have hchange := execute_rowChange (.maintain now) hs k
  rw [show ((Op.maintain now).execute s).2.attempts.lookup k = some row' from hrow'] at hchange
  rw [hrow'] at hne
  generalize s.attempts.lookup k = r at hchange hne
  cases hchange with
  | kept => exact absurd rfl hne
  | swept => exact ⟨rfl, rfl⟩

/-- An attempt that one run changed is left alone by all later runs. -/
theorem changed_once (now : ℤ) (k : AttemptKey) {j : ℕ} (hij : i < j)
    (hne : (maintained ops now (i + 1)).attempts.lookup k ≠
      (maintained ops now i).attempts.lookup k) :
    (maintained ops now (j + 1)).attempts.lookup k = (maintained ops now j).attempts.lookup k := by
  have hquiet : Quiet (maintained ops now j) k := by
    induction j, hij using Nat.le_induction with
    | base =>
      rw [maintained_succ] at hne ⊢
      exact quiet_of_changed (run_wellFormed _) hne
    | succ j _ ih =>
      intro row hrow
      rw [maintained_succ, ih.kept (run_wellFormed _)] at hrow
      exact ih row hrow
  rw [maintained_succ]
  exact hquiet.kept (run_wellFormed _) now

/-! ### Deadlines -/

/-- Attempts begin after the epoch, from which the clock of the database counts. -/
def Op.AfterEpoch : Op → Prop
  | .begin _ _ now _ => 0 ≤ now
  | _ => True

/-- The row knows the deadline of its plan, and it is a positive one. -/
structure AttemptRow.Dated (row : AttemptRow) : Prop where
  deadline : row.deadline = row.data.plan.deadline.unix
  positive : 0 < row.deadline

theorem AttemptRow.Dated.of_plan (h : row.Dated) {row' : AttemptRow}
    (hdeadline : row'.deadline = row'.data.plan.deadline.unix)
    (hplan : row'.data.plan = row.data.plan) : row'.Dated := by
  refine ⟨hdeadline, ?_⟩
  rw [hdeadline, hplan, ← h.deadline]
  exact h.positive

/-- **Step**: rows stay dated. -/
theorem step_dated {op : Op} (hs : WellFormed s) (hop : op.AfterEpoch)
    (hrows : ∀ k row, s.attempts.lookup k = some row → row.Dated)
    (hrow : (op.step s).attempts.lookup k = some row) : row.Dated := by
  have hchange := rowChange_of_step hs hrow
  generalize hr : s.attempts.lookup k = r at hchange
  cases hchange with
  | kept => exact hrows k row hr
  | @admitted principal submitted now planNow plan _ _ _ _ _ _ _ hresolve _ =>
    rcases begin_checked principal submitted now planNow s with hsame | ⟨hlt, -⟩
    · rw [show Op.step s (.begin principal submitted now planNow) = s from hsame, hr] at hrow
      cases hrow
    have hplan : plan.deadline = submitted.deadline := by
      obtain ⟨_, -, rfl⟩ := resolveAllowances_runs hresolve
      rfl
    refine ⟨rfl, ?_⟩
    show 0 < plan.deadline.unix
    rw [hplan]
    exact lt_of_le_of_lt hop hlt
  | accepted | reconciled | swept => exact (hrows k _ hr).of_plan rfl rfl
  | finalized => exact (hrows k _ hr).of_plan rfl (finalizedRow_plan _ _ _)

theorem run_dated {ops : List Op} (hops : ∀ op ∈ ops, op.AfterEpoch) :
    ∀ k row, (run Op.step {} ops).attempts.lookup k = some row → row.Dated := by
  induction ops using List.reverseRecOn with
  | nil =>
    intro k row hrow
    cases hrow
  | append_singleton ops op ih =>
    intro k row hrow
    rw [run_append] at hrow
    exact step_dated (run_wellFormed ops) (hops op (by simp))
      (ih fun op' hop' => hops op' (mem_append_left _ hop')) hrow

/-! ### Progress -/

/-- The attempt is under way, or its outcome is not known. -/
def AttemptRow.unfinished (row : AttemptRow) : Prop :=
  row.state = .dispatchIntent ∨ row.state = .accepted ∨ row.state = .outcomeUnknown

/-- An unfinished attempt past its deadline that is not eligible has given
back its concurrency. -/
theorem AttemptRow.Capacity.swept (hcap : row.Capacity) (hdated : row.Dated)
    (hunfinished : row.unfinished) (hpast : row.deadline ≤ now - attemptCancellationGraceSeconds)
    (hnot : ¬ sweepable (now - attemptCancellationGraceSeconds) row = true) :
    ∀ e ∈ row.data.holdings, e.1.kind = .concurrency → e.2 = 0 := by
  have hreleased : row.data.concurrencyReleased = true := by
    have hdeadline : 0 < row.deadline ∧ row.deadline ≤ now - attemptCancellationGraceSeconds :=
      ⟨hdated.positive, hpast⟩
    by_contra hheld
    apply hnot
    rcases hunfinished with h | h | h
    · simp [sweepable, hdeadline, h]
    · simp [sweepable, hdeadline, h]
    · simpa [sweepable, hdeadline, h] using hheld
  exact (hcap.released (.inr hreleased)).2

/-- **The deadline sweep makes progress**: in every reachable store
`RunMaintenance` succeeds; run at one time it has looked at every eligible
attempt after as many runs as there are batches of 256, and no unfinished
attempt past its deadline and the grace then holds concurrency; and no
attempt is changed by two of the runs. -/
theorem deadline_sweep_progress (ops : List Op) (hops : ∀ op ∈ ops, op.AfterEpoch) (now : ℤ) :
    (∀ j, ∃ s', Runs (runMaintenance now) (maintained ops now j) () s') ∧
    (∀ j, ((eligibleAttempts (run Op.step {} ops) now).length + 255) / 256 ≤ j →
      ∀ k row, (maintained ops now j).attempts.lookup k = some row → row.unfinished →
        row.deadline ≤ now - attemptCancellationGraceSeconds →
        ∀ e ∈ row.data.holdings, e.1.kind = .concurrency → e.2 = 0) ∧
    ∀ k i j, i < j →
      (maintained ops now (i + 1)).attempts.lookup k ≠ (maintained ops now i).attempts.lookup k →
      (maintained ops now (j + 1)).attempts.lookup k =
        (maintained ops now j).attempts.lookup k := by
  refine ⟨fun j => runMaintenance_succeeds (run_covered _) now, ?_,
    fun k i j hij => changed_once ops now k hij⟩
  intro j hj k row hrow hunfinished hpast
  have hall : ∀ op ∈ ops ++ List.replicate j (.maintain now), op.AfterEpoch := by
    refine forall_mem_append.2 ⟨hops, fun op hop => ?_⟩
    rw [(mem_replicate.1 hop).2]
    trivial
  have hdated : row.Dated := run_dated hall k row hrow
  refine (run_capacity _ k row hrow).swept hdated hunfinished hpast fun helig => ?_
  -- an eligible attempt would be one too many
  have hpos := length_pos_of_mem (mem_eligibleAttempts.2 ⟨hrow, helig⟩)
  have hlen := eligible_after ops now j
  omega

/-- After one run the swept attempt holds no concurrency. -/
theorem swept_attempt_progress :
    ∃ row, (maintained ((sweptAttempt 0).take 3) 2000 1).attempts.lookup ⟨"t", "x"⟩ = some row ∧
      row.data.held = [0] ∧ ∀ e ∈ row.data.holdings, e.1.kind = .concurrency → e.2 = 0 := by
  have hsome : ((maintained ((sweptAttempt 0).take 3) 2000 1).attempts.lookup ⟨"t", "x"⟩).map
      (fun row => (row.state, row.deadline, row.data.held)) =
        some (.outcomeUnknown, 1000, [0]) := by decide +kernel
  obtain ⟨row, hrow, hparts⟩ := Option.map_eq_some_iff.1 hsome
  simp only [Prod.mk.injEq] at hparts
  obtain ⟨hstate, hdeadline, hheld⟩ := hparts
  have heligible : (eligibleAttempts (run Op.step {} ((sweptAttempt 0).take 3)) 2000).length = 1 :=
    by decide +kernel
  have hops : ∀ op ∈ (sweptAttempt 0).take 3, op.AfterEpoch := by
    intro op hop
    simp only [sweptAttempt, take_succ_cons, take_zero, mem_cons, not_mem_nil, or_false] at hop
    rcases hop with rfl | rfl | rfl
    · trivial
    · trivial
    · exact (by decide : (0 : ℤ) ≤ 100)
  refine ⟨row, hrow, hheld, ?_⟩
  refine (deadline_sweep_progress _ hops 2000).2.1 1 ?_ ⟨"t", "x"⟩ row hrow (.inr (.inr hstate)) ?_
  · rw [heligible]
  · rw [hdeadline]
    decide

end Hoorific
