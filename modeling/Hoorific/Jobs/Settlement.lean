/-
Which jobs `ClaimJobs` still selects.  A settled job is to leave the claim
set, and a job whose attempt is still `job_pending` is to stay in it.  The
store decides by a fixed list of status words; the words it reads are the
provider's, and `settlement_pending` is a flag of its own.  The two agree
in every run whose steps meet `JobStep`: terminal words of a provider are
among the words of the store, and nobody but `settleNativeJob` writes one
of these words to a job whose attempt is still pending.

The invariant is `JobSystem.Sound`.  A party that holds the current fence
has an exact copy of the status and the flag, because every write under a
later claim has a larger fence.
-/
import Hoorific.Jobs.Effects

namespace Hoorific

open Tx Table

variable {s s' : Store}

/-! ### Attempts that wait for a job -/

/-- The outcome hands an attempt over to its job. -/
def AttemptOutcome.HandsOver (o : AttemptOutcome) (s : Store) (k : AttemptKey) : Prop :=
  o.requested = .jobPending ∧ k = ⟨o.tenantID, o.attemptID⟩ ∧
    ∃ row, s.attempts.lookup k = some row ∧ (row.state = .dispatchIntent ∨ row.state = .accepted)

variable {k : AttemptKey} {chargedAt savedAt lease : ℤ} {owner : String} {claimedAt : Time}

theorem Replaced.jobPending {k₀ : AttemptKey} {row row' : AttemptRow}
    (hrep : Replaced s s' k₀ row row') (h : s'.JobPending k) :
    s.JobPending k ∨ k = k₀ ∧ row'.state = .jobPending := by
  obtain ⟨r, hr, hstate⟩ := h
  rw [hrep.attempts] at hr
  rcases lookup_insert_iff.1 hr with ⟨rfl, rfl⟩ | ⟨-, hr⟩
  · exact .inr ⟨rfl, hstate⟩
  · exact .inl ⟨r, hr, hstate⟩

/-- **Only an outcome that asks for it makes an attempt wait for a job.** -/
theorem Effect.jobPending {op : Op} (h : Effect s s' op) (hp : s'.JobPending k) :
    s.JobPending k ∨ ∃ o chargedAt savedAt, op = .finalize o chargedAt savedAt ∧ o.HandsOver s k := by
  cases h with
  | policy h =>
    obtain ⟨row, hrow, hstate⟩ := hp
    exact .inl ⟨row, h.attempts ▸ hrow, hstate⟩
  | configured h =>
    obtain ⟨row, hrow, hstate⟩ := hp
    rw [h] at hrow
    exact .inl ⟨row, hrow, hstate⟩
  | admitted _ _ hpolicy _ _ hadm =>
    obtain ⟨row, hrow, hstate⟩ := hp
    rw [hadm.attempts] at hrow
    rcases lookup_insert_iff.1 hrow with ⟨-, rfl⟩ | ⟨-, hrow⟩
    · cases hstate
    · exact .inl ⟨row, hpolicy.attempts ▸ hrow, hstate⟩
  | accepted _ hrep _ =>
    rcases hrep.jobPending hp with hp | ⟨-, hstate⟩
    · exact .inl hp
    · cases hstate
  | @finalized o chargedAt savedAt row hfin hrep _ =>
    rcases hrep.jobPending hp with hp | ⟨rfl, hstate⟩
    · exact .inl hp
    have hreq : o.requested = .jobPending := by
      rcases evidence_next_cases row.data.completed o with h | ⟨-, h⟩
      · exact h.symm.trans hstate
      · exact absurd (h.symm.trans hstate) (by simp)
    refine .inr ⟨o, chargedAt, savedAt, rfl, hreq, rfl, row, hrep.found, ?_⟩
    rw [hreq] at hfin
    unfold finalizable at hfin
    cases hrow : row.state <;> simp_all
  | reconciled hby =>
    rcases hby.replaced.jobPending hp with hp | ⟨-, hstate⟩
    · exact .inl hp
    · cases hstate
  | maintained hsweeps hret =>
    obtain ⟨row, hrow, hstate⟩ := hp
    have hrow₁ := hret.kept _ _ hrow
    rcases sweeps_lookup hsweeps k with hsame | ⟨_, -, -, hswept⟩
    · exact .inl ⟨row, hsame ▸ hrow₁, hstate⟩
    · cases hswept.symm.trans hrow₁
      cases hstate

/-- After a settlement the attempt no longer waits. -/
theorem finalizeAttempt_not_jobPending {o : AttemptOutcome} {u : Unit} (hs : WellFormed s)
    (h : Runs (finalizeAttempt o chargedAt savedAt) s u s') (hreq : o.requested = .settled) :
    ¬ s'.JobPending ⟨o.tenantID, o.attemptID⟩ := by
  rintro ⟨row', hrow', hstate⟩
  obtain ⟨row, hrow, ⟨hfin, rfl⟩ | ⟨-, hrep, -⟩⟩ := finalizeAttempt_runs hs h
  · cases hrow.symm.trans hrow'
    simp [finalizable, hstate, hreq] at hfin
  rw [hrep.attempts, AList.lookup_insert] at hrow'
  rw [← Option.some.inj hrow'] at hstate
  rcases evidence_next_cases row.data.completed o with h | ⟨-, h⟩
  · rw [hreq] at h
    exact absurd (h.symm.trans hstate) (by simp)
  · exact absurd (h.symm.trans hstate) (by simp)

/-! ### The condition on steps -/

/-- The words at which `ClaimJobs` passes a job over. -/
def finalWord (status : String) : Bool :=
  status == "outcome_unknown" || finishedStatuses.contains status

/-- What has to hold when a step is taken.  Every clause is about the state
before the step and the provider's or the caller's input. -/
def JobStep (m : CaseMap) (s : JobSystem) : JobOp → Prop
  -- a job of the attempt that is handed over can still be claimed
  | .account (.finalize o _ _) => ∀ k, o.HandsOver s.store k →
      (∀ row ∈ Table.rows s.jobs, row.job.attempt = k → row.job.filtered = false) ∧
      (∀ e ∈ Table.rows s.running, e.job.attempt = k → e.finalized = false)
  -- a job is stored before its attempt is handed over
  | .acknowledge tenantID _ _ _ _ _ attemptID _ _ _ => ¬ s.store.JobPending ⟨tenantID, attemptID⟩
  | .unknown tenantID _ _ _ _ attemptID _ _ => ¬ s.store.JobPending ⟨tenantID, attemptID⟩
  -- a final word is terminal for the provider
  | .poll k fence data _ _ => ∀ e, s.running.lookup (k, fence) = some e →
      ∀ metadata, e.job.metadata = some metadata →
        nativeStatus m data metadata.policy.statusField ≠ "outcome_unknown" ∧
        (finishedStatuses.contains (nativeStatus m data metadata.policy.statusField) = true →
          nativeTerminal m metadata.policy (nativeStatus m data metadata.policy.statusField) = true)
  -- a terminal word of the provider is final
  | .close k fence _ _ => ∀ e, s.running.lookup (k, fence) = some e →
      finalWord e.job.status = true
  -- a cancellation is not answered with a final word while the attempt is
  -- pending, nor with another word once the job is settled
  | .adminCancel k fence policy raw _ => ∀ e, s.running.lookup (k, fence) = some e →
      isTerminalJobStatus m e.job.status = false →
      ∀ word, cancelEvidence m policy raw = some word →
        (s.store.JobPending e.job.attempt →
          ({ e.job with status := word } : Job).filtered = false) ∧
        (k ∈ s.settled → finalWord word = true)
  | _ => True

/-! ### The invariant -/

/-- Stored statuses are normalized. -/
def Job.Normal (m : CaseMap) (j : Job) : Prop := normalizeNativeStatus m j.status = j.status

/-- A party's copy of a job, against the stored record: it is of that record,
from this claim or an earlier one, and exact if the claim is the current one. -/
def Execution.Of (e : Execution) (fence : ℤ) (stored : Job) : Prop :=
  e.job.key = stored.key ∧ fence ≤ stored.fence ∧
    (stored.fence = fence →
      e.job.status = stored.status ∧ e.job.settlementPending = stored.settlementPending)

/-- The invariant of the job system. -/
structure JobSystem.Sound (m : CaseMap) (s : JobSystem) : Prop where
  wellFormed : WellFormed s.store
  keyed : Keyed s.jobs
  normal : ∀ k row, s.jobs.lookup k = some row → row.job.Normal m
  leased : ∀ k f e, s.running.lookup (k, f) = some e →
    ∃ row, s.jobs.lookup k = some row ∧ e.Of f row.job
  finalized : ∀ kf e, s.running.lookup kf = some e → e.finalized = true →
    ¬ s.store.JobPending e.job.attempt
  closed : ∀ k ∈ s.settled, ∃ row, s.jobs.lookup k = some row ∧ finalWord row.job.status = true ∧
    row.job.settlementPending = false ∧
    ∀ e, s.running.lookup (k, row.job.fence) = some e → e.duty = .administer
  pending : ∀ k row, s.jobs.lookup k = some row → s.store.JobPending row.job.attempt →
    row.job.filtered = false

variable {m : CaseMap}

theorem JobSystem.sound_empty : JobSystem.Sound m {} where
  wellFormed := wellFormed_empty
  keyed := by intro k row h; simp at h
  normal := by intro k row h; simp at h
  leased := by intro k f e h; simp at h
  finalized := by intro kf e h; simp at h
  closed := by intro k h; simp at h
  pending := by intro k row h; simp at h

namespace JobSystem.Sound

variable {s s' : JobSystem} {k : JobKey} {row : JobRow} {j : Job} {v f : ℤ} (h : s.Sound m)

include h

theorem settled_filtered (hk : k ∈ s.settled) (hrow : s.jobs.lookup k = some row) : row.job.filtered = true := by
  obtain ⟨row', hrow', hword, hflag, -⟩ := h.closed k hk
  cases hrow.symm.trans hrow'
  simpa [Job.filtered, finalWord, hflag] using hword

/-- **A write to the record under `k`** keeps the invariant, if afterwards the
party of the written fence, if there still is one, has a copy of what was
written, and the word written agrees with the attempt and the settlement. -/
theorem written (hrow : s.jobs.lookup k = some row)
    (hstore : s'.store = s.store) (hjobs : s'.jobs = s.jobs.insert k ⟨v, j⟩)
    (hkey : j.key = k) (hattempt : j.attempt = row.job.attempt) (hnormal : j.Normal m)
    (hfence : row.job.fence ≤ j.fence)
    (hrunning : ∀ kf e, s'.running.lookup kf = some e →
      (kf ≠ (k, j.fence) ∧ s.running.lookup kf = some e) ∨
      (kf = (k, j.fence) ∧ e.finalized = false ∧ e.Of j.fence j))
    (hsettled : ∀ k' ∈ s'.settled, k' = k ∨ k' ∈ s.settled)
    (hclosed : k ∈ s'.settled → finalWord j.status = true ∧ j.settlementPending = false ∧
      ∀ e, s'.running.lookup (k, j.fence) = some e → e.duty = .administer)
    (hpending : s.store.JobPending row.job.attempt → j.filtered = false) : s'.Sound m where
  wellFormed := hstore ▸ h.wellFormed
  keyed := by
    rw [hjobs]
    exact forall_insert h.keyed hkey
  normal := by
    rw [hjobs]
    exact forall_insert h.normal hnormal
  leased := by
    intro k' f e he
    rw [hjobs]
    rcases hrunning (k', f) e he with ⟨hne, hold⟩ | ⟨heq, -, hof⟩
    · obtain ⟨row', hrow', hof⟩ := h.leased k' f e hold
      by_cases hk : k' = k
      · subst hk
        -- an earlier claim of the same job: its fence is below the one written
        obtain rfl : row' = row := Option.some.inj (hrow'.symm.trans hrow)
        obtain ⟨hkeys, hle, -⟩ := hof
        have hold_key : row'.job.key = k' := h.keyed k' row' hrow
        refine ⟨⟨v, j⟩, AList.lookup_insert _, ?_, hle.trans hfence, ?_⟩
        · rw [hkeys, hold_key, hkey]
        · intro hf
          exact absurd (by rw [← hf]) hne
      · exact ⟨row', by rw [AList.lookup_insert_ne hk]; exact hrow', hof⟩
    · cases heq
      exact ⟨⟨v, j⟩, AList.lookup_insert _, hof⟩
  finalized := by
    intro kf e he hfin
    rw [hstore]
    rcases hrunning kf e he with ⟨-, hold⟩ | ⟨-, hnot, -⟩
    · exact h.finalized kf e hold hfin
    · rw [hnot] at hfin
      cases hfin
  closed := by
    intro k' hk'
    rw [hjobs]
    by_cases hk : k' = k
    · subst hk
      exact ⟨⟨v, j⟩, AList.lookup_insert _, hclosed hk'⟩
    obtain ⟨row', hrow', hword, hflag, hduty⟩ := h.closed k' ((hsettled k' hk').resolve_left hk)
    refine ⟨row', by rw [AList.lookup_insert_ne hk]; exact hrow', hword, hflag, ?_⟩
    intro e he
    rcases hrunning _ e he with ⟨-, hold⟩ | ⟨heq, -, -⟩
    · exact hduty e hold
    · exact absurd (congrArg Prod.fst heq) hk
  pending := by
    rw [hstore, hjobs]
    exact forall_insert h.pending fun hp => hpending (hattempt ▸ hp)

theorem stop (k : JobKey) (f : ℤ) : (s.stop k f).Sound m := by
  have hsub : ∀ kf e, (s.running.erase (k, f)).lookup kf = some e →
      s.running.lookup kf = some e := fun kf e he => (lookup_erase_iff.1 he).2
  refine { h with leased := ?_, finalized := ?_, closed := ?_ }
  · intro k' f' e he
    exact h.leased k' f' e (hsub _ e he)
  · intro kf e he
    exact h.finalized kf e (hsub kf e he)
  · intro k' hk'
    obtain ⟨row, hrow, hword, hflag, hduty⟩ := h.closed k' hk'
    exact ⟨row, hrow, hword, hflag, fun e he => hduty e (hsub _ e he)⟩

theorem written_stop {settled : List JobKey} (hrow : s.jobs.lookup k = some row)
    (hf : row.job.fence = f) (hjf : j.fence = f) (hkey : j.key = k)
    (hattempt : j.attempt = row.job.attempt) (hnormal : j.Normal m)
    (hsettled : ∀ k' ∈ settled, k' = k ∨ k' ∈ s.settled)
    (hclosed : k ∈ settled → finalWord j.status = true ∧ j.settlementPending = false)
    (hpending : s.store.JobPending row.job.attempt → j.filtered = false) :
    Sound m { s with jobs := s.jobs.insert k ⟨v, j⟩, running := s.running.erase (k, f),
                     settled := settled } := by
  refine h.written hrow rfl rfl hkey hattempt hnormal (by rw [hf, hjf]) ?_ hsettled ?_ hpending
  · intro kf e he
    left
    rw [hjf]
    exact lookup_erase_iff.1 he
  · intro hk
    obtain ⟨hword, hflag⟩ := hclosed hk
    refine ⟨hword, hflag, fun e he => ?_⟩
    rw [hjf, AList.lookup_erase] at he
    cases he

/-- A claim: the record gets the next fence and a party starts under it. -/
theorem claimed (hrow : s.jobs.lookup k = some row) {worker : String} {duty : Duty}
    (hduty : k ∈ s.settled → duty = .administer) :
    Sound m (JobSystem.start
      { s with jobs := s.jobs.insert k ⟨v, row.job.claimed owner lease claimedAt⟩ } worker duty
      (row.job.claimed owner lease claimedAt)) := by
  have hkey : row.job.key = k := h.keyed k row hrow
  refine h.written hrow rfl rfl hkey rfl (h.normal k row hrow) (by simp [Job.claimed]) ?_
    (fun k' hk' => .inr hk') ?_ (h.pending k row hrow)
  · intro kf e he
    rcases lookup_insert_iff.1 he with ⟨hkf, rfl⟩ | ⟨hkf, he⟩
    · right
      exact ⟨by rw [hkf]; exact congrArg (·, _) hkey, rfl, rfl, le_refl _, fun _ => ⟨rfl, rfl⟩⟩
    · left
      exact ⟨fun heq => hkf (by rw [heq]; exact congrArg (·, _) hkey.symm), he⟩
  · intro hk
    obtain ⟨row', hrow', hword, hflag, -⟩ := h.closed k hk
    cases hrow.symm.trans hrow'
    refine ⟨hword, hflag, fun e he => ?_⟩
    rcases lookup_insert_iff.1 he with ⟨-, rfl⟩ | ⟨hkf, -⟩
    · exact hduty hk
    · exact absurd (congrArg (·, _) hkey.symm) hkf

theorem put (hnormal : j.Normal m) (hnot : ¬ s.store.JobPending j.attempt) : (s.put j).Sound m := by
  refine commit_induct (P := fun jobs => JobSystem.Sound m { s with jobs }) h fun u jobs hrun => ?_
  obtain ⟨hnone, rfl⟩ := putJob_runs hrun
  have hkept : ∀ k row, s.jobs.lookup k = some row →
      (s.jobs.insert j.key ⟨1, j⟩).lookup k = some row := by
    intro k row hrow
    have hk : k ≠ j.key := by
      rintro rfl
      rw [hnone] at hrow
      cases hrow
    rw [AList.lookup_insert_ne hk]
    exact hrow
  refine { h with keyed := ?_, normal := ?_, leased := ?_, closed := ?_, pending := ?_ }
  · exact forall_insert h.keyed rfl
  · exact forall_insert h.normal hnormal
  · intro k f e he
    obtain ⟨row, hrow, hof⟩ := h.leased k f e he
    exact ⟨row, hkept k row hrow, hof⟩
  · intro k hk
    obtain ⟨row, hrow, hrest⟩ := h.closed k hk
    exact ⟨row, hkept k row hrow, hrest⟩
  · exact forall_insert h.pending fun hp => absurd hp hnot

/-- A change of the accounts keeps the invariant, if an attempt that begins to
wait has no job that is passed over and no party that has finalized it. -/
theorem accounted {store : Store} (hwf : WellFormed store)
    (hnew : ∀ k, store.JobPending k → s.store.JobPending k ∨
      (∀ row ∈ Table.rows s.jobs, row.job.attempt = k → row.job.filtered = false) ∧
      (∀ e ∈ Table.rows s.running, e.job.attempt = k → e.finalized = false)) :
    Sound m { s with store := store } := by
  refine { h with wellFormed := hwf, finalized := ?_, pending := ?_ }
  · intro kf e he hfin hp
    rcases hnew _ hp with hold | ⟨-, hnot⟩
    · exact h.finalized kf e he hfin hold
    · rw [hnot e (mem_rows_iff.2 ⟨kf, he⟩) rfl] at hfin
      cases hfin
  · intro k row hrow hp
    rcases hnew _ hp with hold | ⟨hopen, -⟩
    · exact h.pending k row hrow hold
    · exact hopen row (mem_rows_iff.2 ⟨k, hrow⟩) rfl

theorem finished {e : Execution} (he : s.running.lookup (k, f) = some e)
    (hnot : ¬ s.store.JobPending e.job.attempt) :
    Sound m { s with running := s.running.insert (k, f) { e with finalized := true } } := by
  refine { h with leased := ?_, finalized := ?_, closed := ?_ }
  · intro k' f' e' he'
    rcases lookup_insert_iff.1 he' with ⟨heq, rfl⟩ | ⟨-, he'⟩
    · cases heq
      exact h.leased k f e he
    · exact h.leased k' f' e' he'
  · exact forall_insert h.finalized fun _ => hnot
  · intro k' hk'
    obtain ⟨row, hrow, hword, hflag, hduty⟩ := h.closed k' hk'
    refine ⟨row, hrow, hword, hflag, fun e' he' => ?_⟩
    rcases lookup_insert_iff.1 he' with ⟨heq, rfl⟩ | ⟨-, he'⟩
    · exact hduty e (heq ▸ he)
    · exact hduty e' he'

end JobSystem.Sound

/-! ### The steps of the parties -/

namespace JobSystem

variable {s : JobSystem} {k : JobKey} {f : ℤ} {e : Execution} {j : Job} {postgres : Bool}

/-- A party's update succeeds, and then it was the current one, or it stops. -/
theorem update_cases (postgres : Bool) (s : JobSystem) (f : ℤ) (e : Execution) (hkeys : j.key = k)
    (at_ : Time) (next : JobSystem → JobSystem) :
    s.update postgres k f e j at_ next = s.stop k f ∨
      ∃ row, s.jobs.lookup k = some row ∧ row.job.fence = f ∧ row.job.attempt = j.attempt ∧
        s.update postgres k f e j at_ next = next { s with
          jobs := s.jobs.insert k ⟨row.version + 1, { j with fence := f, updatedAt := at_ }⟩ } := by
  unfold JobSystem.update
  split
  next u jobs hok =>
    obtain ⟨row, hrow, -, -, hf, -, hsame, -, rfl⟩ := updateJob_holder (commit_ok_iff.1 hok)
    rw [hkeys] at hrow
    exact .inr ⟨row, hrow, hf, (sameJob_key hsame).2, by rw [hkeys]⟩
  next => exact .inl rfl

theorem polled_status (m : CaseMap) (j : Job) (policy : NativeResponsePolicy) (data : Json)
    (now : Time) :
    (j.polled m policy data now).status = nativeStatus m data policy.statusField ∧
    (j.polled m policy data now).settlementPending =
      nativeTerminal m policy (nativeStatus m data policy.statusField) ∧
    (j.polled m policy data now).key = j.key := by
  unfold Job.polled
  simp only
  split <;> exact ⟨rfl, rfl, rfl⟩

theorem foldl_start (out : List Job) (owner : String) (s : JobSystem) (jobs : Jobs) :
    out.foldl (fun s j => s.start owner .reconcile j) { s with jobs := jobs } =
      { out.foldl (fun s j => s.start owner .reconcile j) s with jobs := jobs } := by
  induction out generalizing s with
  | nil => rfl
  | cons j out ih => exact ih (s.start owner .reconcile j)

theorem foldl_start_frame (out : List Job) (owner : String) (s : JobSystem) :
    (out.foldl (fun s j => s.start owner .reconcile j) s).jobs = s.jobs ∧
      (out.foldl (fun s j => s.start owner .reconcile j) s).settled = s.settled := by
  induction out generalizing s with
  | nil => exact ⟨rfl, rfl⟩
  | cons j out ih => exact ih (s.start owner .reconcile j)

variable {now updatedAt : Time} (h : s.Sound m)

include h

/-- What a party under the current fence knows about the record. -/
theorem Sound.current (he : s.running.lookup (k, f) = some e) :
    e.job.key = k ∧ ∀ row, s.jobs.lookup k = some row → row.job.fence = f →
      e.job.status = row.job.status ∧ e.job.settlementPending = row.job.settlementPending := by
  obtain ⟨row, hrow, hkeys, -, hcopy⟩ := h.leased k f e he
  refine ⟨hkeys.trans (h.keyed k row hrow), fun row' hrow' hf => ?_⟩
  cases hrow.symm.trans hrow'
  exact hcopy hf

theorem Sound.poll {data : Json} (hstep : JobStep m s (.poll k f data now updatedAt)) :
    (s.poll m postgres k f data now updatedAt).Sound m := by
  unfold JobSystem.poll
  split
  · exact h
  next e he =>
    split
    · exact h.stop k f
    next metadata hmeta =>
      split
      · exact h
      next hpollable =>
        split
        · exact h.stop k f
        obtain ⟨hunknown, hfinished⟩ := hstep e he metadata hmeta
        obtain ⟨hstatus, hflag, hkeys⟩ := polled_status m e.job metadata.policy data now
        generalize e.job.polled m metadata.policy data now = j at *
        have hkey : j.key = k := hkeys.trans (h.current he).1
        have hnormal : j.Normal m := by
          rw [Job.Normal, hstatus]
          exact nativeStatus_normal m data metadata.policy.statusField
        have hopen : j.filtered = false := by
          rw [Job.filtered, hstatus, hflag]
          simp only [Bool.or_eq_false_iff, Bool.and_eq_false_iff]
          refine ⟨by simpa using hunknown, ?_⟩
          by_cases hw : finishedStatuses.contains
              (nativeStatus m data metadata.policy.statusField) = true
          · exact .inr (by simpa using hfinished hw)
          · exact .inl (by simpa using hw)
        rcases update_cases postgres s f e hkey updatedAt _ with
          hstop | ⟨row, hrow, hf, hattempt, hnext⟩
        · rw [hstop]
          exact h.stop k f
        rw [hnext]
        simp only [pollable, Bool.not_eq_false, Bool.and_eq_true, beq_iff_eq,
          Bool.not_eq_true'] at hpollable
        obtain ⟨⟨⟨⟨⟨hduty, hnotfinal⟩, -⟩, -⟩, -⟩, -⟩ := hpollable
        -- a settled job has no reconciler under the current fence
        have hunsettled : k ∉ s.settled := by
          intro hk
          obtain ⟨row', hrow', -, -, hadmin⟩ := h.closed k hk
          cases hrow.symm.trans hrow'
          have := hadmin e (hf ▸ he)
          rw [hduty] at this
          cases this
        split
        · -- terminal: the party goes on with what it has written
          refine h.written hrow rfl rfl hkey hattempt.symm hnormal (le_of_eq hf) ?_
            (fun k' hk' => .inr hk') (fun hk => absurd hk hunsettled) (fun _ => hopen)
          intro kf e' he'
          rcases lookup_insert_iff.1 he' with ⟨hkf, rfl⟩ | ⟨hkf, he'⟩
          · exact .inr ⟨hkf, hnotfinal, rfl, le_refl _, fun _ => ⟨rfl, rfl⟩⟩
          · exact .inl ⟨hkf, he'⟩
        · exact h.written_stop hrow hf rfl hkey hattempt.symm hnormal
            (fun k' hk' => .inr hk') (fun hk => absurd hk hunsettled) (fun _ => hopen)

theorem Sound.finalize : (s.finalize m k f now chargedAt savedAt).Sound m := by
  unfold JobSystem.finalize
  split
  · exact h
  next e he =>
    split
    · exact h.stop k f
    next metadata hmeta =>
      split
      · split
        next store hok =>
          have hrun := commit_ok_iff.1 hok
          have hexec : (Op.execute (.finalize (settlementOutcome m e.job metadata.attemptID)
              chargedAt savedAt) s.store).2 = store := congrArg Prod.snd hok
          have heff := execute_effect
            (.finalize (settlementOutcome m e.job metadata.attemptID) chargedAt savedAt) h.wellFormed
          rw [hexec] at heff
          have hnot : ¬ store.JobPending e.job.attempt := by
            have hkey : e.job.attempt = ⟨e.job.tenantID, metadata.attemptID⟩ := by
              rw [Job.attempt, hmeta]
              rfl
            rw [hkey]
            exact finalizeAttempt_not_jobPending h.wellFormed hrun rfl
          have hacc : Sound m { s with store := store } := by
            refine h.accounted (heff.wellFormed h.wellFormed) ?_
            intro k' hp
            rcases heff.jobPending hp with hold | ⟨o, _, _, heq, hreq, -⟩
            · exact .inl hold
            · cases heq
              cases hreq
          exact hacc.finished he hnot
        next => exact h.stop k f
      · exact h

theorem Sound.close (hstep : JobStep m s (.close k f now updatedAt)) :
    (s.close postgres k f now updatedAt).Sound m := by
  unfold JobSystem.close
  split
  · exact h
  next e he =>
    split
    next hfinal =>
      obtain ⟨hkey, hcopy⟩ := h.current he
      rcases update_cases postgres s f e (j := e.job.settled now) hkey updatedAt _ with
        hstop | ⟨row, hrow, hf, hattempt, hnext⟩
      · rw [hstop]
        exact h.stop k f
      rw [hnext]
      have hnormal : e.job.Normal m := by
        rw [Job.Normal, (hcopy row hrow hf).1]
        exact h.normal k row hrow
      have hdone : ¬ s.store.JobPending row.job.attempt := by
        rw [hattempt]
        exact h.finalized (k, f) e he hfinal
      refine h.written_stop hrow hf rfl hkey hattempt.symm hnormal ?_ ?_ (fun hp => absurd hp hdone)
      · intro k' hk'
        exact List.mem_cons.1 hk'
      · intro _
        exact ⟨hstep e he, rfl⟩
    next => exact h

/-- An administrator's release keeps the invariant, if the status written
agrees with the attempt and the settlement. -/
theorem Sound.release {status : Job → String}
    (hword : ∀ e, s.running.lookup (k, f) = some e → e.job.Normal m →
      normalizeNativeStatus m (status e.job) = status e.job ∧
      (status e.job = e.job.status ∨
        (s.store.JobPending e.job.attempt →
          ({ e.job with status := status e.job } : Job).filtered = false) ∧
        (k ∈ s.settled → finalWord (status e.job) = true))) :
    (s.release postgres k f status updatedAt).Sound m := by
  unfold JobSystem.release
  split
  · exact h
  next e he =>
    split
    · obtain ⟨hkey, hcopy⟩ := h.current he
      rcases update_cases postgres s f e (j := { e.job with status := status e.job }.released)
        hkey updatedAt _ with hstop | ⟨row, hrow, hf, hattempt, hnext⟩
      · rw [hstop]
        exact h.stop k f
      rw [hnext]
      obtain ⟨hstatus, hflag⟩ := hcopy row hrow hf
      have hold : e.job.Normal m := by
        rw [Job.Normal, hstatus]
        exact h.normal k row hrow
      obtain ⟨hnormal, hcase⟩ := hword e he hold
      have hattempt' : row.job.attempt = e.job.attempt := hattempt
      refine h.written_stop hrow hf rfl hkey hattempt.symm hnormal (fun k' hk' => .inr hk') ?_ ?_
      · intro hk
        obtain ⟨row', hrow', hfinal, hclear, -⟩ := h.closed k hk
        cases hrow.symm.trans hrow'
        refine ⟨?_, hflag.trans hclear⟩
        rcases hcase with hsame | ⟨-, hset⟩
        · show finalWord (status e.job) = true
          rw [hsame, hstatus]
          exact hfinal
        · exact hset hk
      · intro hp
        rcases hcase with hsame | ⟨hopen, -⟩
        · have hfil := h.pending k row hrow hp
          show (status e.job == "outcome_unknown" || _ && !e.job.settlementPending) = false
          rw [hsame, hstatus, hflag]
          exact hfil
        · exact hopen (hattempt' ▸ hp)
    · exact h

/-- A claim of a reconciler keeps the invariant: nothing it may select is settled. -/
theorem Sound.claim {limit : ℤ} : (s.claim owner lease limit now claimedAt).Sound m := by
  unfold JobSystem.claim
  split
  next out last jobs hok =>
    have hrun := commit_ok_iff.1 hok
    refine claimJobs_runs (fun done t => Sound m (done.foldl
      (fun s j => s.start owner .reconcile j) { s with jobs := t, cursor := last })) hrun ?_ ?_
    · exact { h with }
    · intro k row done t hc hrow hsound
      rw [List.foldl_append, foldl_start done owner { s with jobs := t, cursor := last }]
      obtain ⟨hjobs, hsettled⟩ := foldl_start_frame done owner { s with jobs := t, cursor := last }
      generalize done.foldl _ { s with jobs := t, cursor := last } = s₁ at hsound hjobs hsettled ⊢
      obtain rfl : s₁.jobs = t := hjobs
      refine hsound.claimed hrow ?_
      intro hk
      have hfil := hsound.settled_filtered hk hrow
      have helig := hc.2.1
      simp [Job.eligible, hfil] at helig
  next =>
    split
    · exact h
    · exact { h with }

theorem Sound.adminClaim {tenantID subjectID id : String} {expected : ℤ} :
    (s.adminClaim tenantID subjectID id expected now).Sound m := by
  unfold JobSystem.adminClaim
  split
  next j version jobs hok =>
    obtain ⟨row, hrow, rfl, rfl⟩ := claimJobAction_runs h.keyed (commit_ok_iff.1 hok)
    exact h.claimed hrow fun _ => rfl
  next => exact h

/-- **Every step that meets the condition keeps the invariant.** -/
theorem Sound.step {op : JobOp} (hop : JobStep m s op) : (s.step m postgres op).Sound m := by
  cases op with
  | account op =>
    have heff := execute_effect op h.wellFormed
    refine h.accounted (heff.wellFormed h.wellFormed) ?_
    intro k hp
    rcases heff.jobPending hp with hold | ⟨o, _, _, rfl, hover⟩
    · exact .inl hold
    · exact .inr (hop k hover)
  | acknowledge tenantID connectionID accountID resourceID operation requestID attemptID policy
      data now =>
    exact h.put (acknowledgedJob_normal m _ _ _ _ _ _ _ _ _ _) hop
  | unknown tenantID connectionID accountID operation requestID attemptID policy now =>
    refine h.put ?_ hop
    show normalizeNativeStatus m "outcome_unknown" = "outcome_unknown"
    exact normalizeNativeStatus_of_isLowerWord m (by decide) (by decide)
  | claim owner lease limit now claimedAt => exact h.claim
  | poll k fence data now updatedAt => exact h.poll hop
  | finalize k fence now chargedAt savedAt => exact h.finalize
  | close k fence now updatedAt => exact h.close hop
  | adminClaim tenantID subjectID id expected now => exact h.adminClaim
  | adminResult k fence updatedAt =>
    exact h.release fun e _ hnormal => ⟨hnormal, .inl rfl⟩
  | adminCancel k fence policy raw updatedAt =>
    show (s.release postgres k fence (fun j => cancellationJobStatus m j.status policy raw)
      updatedAt).Sound m
    apply h.release
    intro e he hnormal
    rcases cancellationJobStatus_cases m hnormal policy raw with hsame | ⟨hopen, hword⟩
    · refine ⟨?_, .inl hsame⟩
      rw [hsame]
      exact hnormal
    · exact ⟨cancelEvidence_normal m hword, .inr (hop e he hopen _ hword)⟩

end JobSystem

end Hoorific
