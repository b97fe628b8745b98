/-
What `ClaimJobs` selects along a run.  A job that has been settled is never
selected again, and a job whose attempt waits for it stays selectable, in
every run whose steps meet `JobStep`.  Two runs show that both halves need
a condition: a provider whose terminal word is not among the words of the
store, and a cancellation that is answered while the attempt waits.
-/
import Hoorific.Jobs.Settlement

namespace Hoorific

namespace JobSystem

variable {m : CaseMap} {postgres : Bool} {s : JobSystem} {k : JobKey} {k' : JobKey} {f : ℤ}
  {at_ now : Time}

/-! ### Settled jobs stay settled -/

section

variable (hk : k ∈ s.settled)
include hk

theorem update_settled {e : Execution} {j : Job} {next : JobSystem → JobSystem}
    (hnext : ∀ jobs, k ∈ (next { s with jobs := jobs }).settled) :
    k ∈ (s.update postgres k' f e j at_ next).settled := by
  unfold JobSystem.update
  split
  · exact hnext _
  · exact hk

theorem poll_settled {data : Json} : k ∈ (s.poll m postgres k' f data now at_).settled := by
  unfold JobSystem.poll
  split
  · exact hk
  split
  · exact hk
  split
  · exact hk
  split
  · exact hk
  · refine update_settled hk fun jobs => ?_
    split <;> exact hk

theorem finalize_settled {chargedAt savedAt : ℤ} :
    k ∈ (s.finalize m k' f now chargedAt savedAt).settled := by
  unfold JobSystem.finalize
  split
  · exact hk
  split
  · exact hk
  split
  · split <;> exact hk
  · exact hk

theorem close_settled : k ∈ (s.close postgres k' f now at_).settled := by
  unfold JobSystem.close
  split
  · exact hk
  split
  · exact update_settled hk fun jobs => List.mem_cons_of_mem _ hk
  · exact hk

theorem release_settled {status : Job → String} :
    k ∈ (s.release postgres k' f status at_).settled := by
  unfold JobSystem.release
  split
  · exact hk
  split
  · exact update_settled hk fun jobs => hk
  · exact hk

theorem claim_settled {owner : String} {lease limit : ℤ} {claimedAt : Time} :
    k ∈ (s.claim owner lease limit now claimedAt).settled := by
  unfold JobSystem.claim
  split
  · rw [(foldl_start_frame _ owner _).2]
    exact hk
  · split <;> exact hk

theorem step_settled (op : JobOp) : k ∈ (s.step m postgres op).settled := by
  cases op with
  | account op | acknowledge | unknown => exact hk
  | claim => exact claim_settled hk
  | poll => exact poll_settled hk
  | finalize => exact finalize_settled hk
  | close => exact close_settled hk
  | adminClaim =>
    show k ∈ (JobSystem.adminClaim _ _ _ _ _ _).settled
    unfold JobSystem.adminClaim
    split <;> exact hk
  | adminResult => exact release_settled hk
  | adminCancel k' fence policy raw at_ =>
    show k ∈ (s.release postgres k' fence
      (fun j => cancellationJobStatus m j.status policy raw) at_).settled
    exact release_settled hk

end

/-! ### The claim set -/

/-- `ClaimJobs` selects the job under `k` in the state `s`. -/
def Selects (s : JobSystem) (k : JobKey) : Prop :=
  ∃ owner lease limit now claimedAt out jobs,
    Tx.Runs (claimJobs owner lease limit s.cursor now claimedAt) s.jobs out jobs ∧
      ∃ j ∈ out.1, j.key = k

/-- What `ClaimJobs` selects is not filtered. -/
theorem Selects.open (h : s.Selects k) :
    ∃ row, s.jobs.lookup k = some row ∧ row.job.filtered = false := by
  obtain ⟨owner, lease, limit, now, claimedAt, out, jobs, hrun, j, hj, rfl⟩ := h
  obtain ⟨l, hl, hdone⟩ := claimJobs_done hrun
  rw [hdone.answer] at hj
  obtain ⟨e, he, rfl⟩ := List.mem_map.1 hj
  obtain ⟨hrow, helig, hkey⟩ := hl e he
  have hkeys : (e.2.job.claimed owner lease claimedAt).key = e.1 := hkey
  refine ⟨e.2, by rw [hkeys]; exact hrow, ?_⟩
  simp only [Job.eligible, Bool.and_eq_true, Bool.not_eq_true'] at helig
  exact helig.1.1

/-- The state after a run of the job system. -/
def after (m : CaseMap) (postgres : Bool) (ops : List JobOp) : JobSystem :=
  run (JobSystem.step m postgres) {} ops

/-- **Settled jobs leave the claim set and pending jobs stay in it**, in every
run whose steps meet the condition: once a job is settled, no later claim
selects it; and as long as the attempt of a job waits, the job is eligible
as soon as its next poll is due and its lease has run out. -/
theorem settled_leave_pending_stay (m : CaseMap) (postgres : Bool) (ops later : List JobOp)
    (h : Along (JobSystem.step m postgres) (JobStep m) {} (ops ++ later)) :
    (∀ k ∈ (after m postgres ops).settled, ¬ (after m postgres (ops ++ later)).Selects k) ∧
    ∀ k row, (after m postgres (ops ++ later)).jobs.lookup k = some row →
      (after m postgres (ops ++ later)).store.JobPending row.job.attempt →
      ∀ now : Time, row.job.nextPoll.nanos ≤ now.nanos → row.job.leaseUntil.nanos ≤ now.nanos →
        row.job.eligible now = true := by
  have hsound : (after m postgres (ops ++ later)).Sound m :=
    run_inv (fun _ _ hs hop => hs.step hop) sound_empty h
  constructor
  · intro k hk hsel
    have hstays : k ∈ (after m postgres (ops ++ later)).settled := by
      rw [after, run_append]
      exact run_inv_of_step (I := fun s : JobSystem => k ∈ s.settled)
        (fun s op hs => step_settled hs op) hk later
    obtain ⟨row, hrow, hopen⟩ := hsel.open
    rw [hsound.settled_filtered hstays hrow] at hopen
    cases hopen
  · intro k row hrow hp now hpoll hlease
    simp [Job.eligible, hsound.pending k row hrow hp, hpoll, hlease]

/-! ### Runs -/

/-- The policy of a prediction: its finished jobs are `succeeded`. -/
def prediction : NativeResponsePolicy :=
  { statusField := "status", pollEndpoint := "v1/predictions/\x7bid\x7d",
    pollAction := "predictions.get", resultAction := "predictions.get",
    cancelAction := "predictions.cancel", terminalStatuses := ["succeeded", "failed", "canceled"],
    failureStatuses := ["failed", "canceled"] }

/-- The policy of a batch: its finished jobs are `completed`. -/
def batch : NativeResponsePolicy :=
  { statusField := "status", pollEndpoint := "batches/\x7bid\x7d", pollAction := "batches.retrieve",
    terminalStatuses := ["completed", "failed", "expired", "cancelled"],
    failureStatuses := ["failed", "expired", "cancelled"] }

def answer (status : String) : Json := .obj [("status", .str status)]

def sampleJob : JobKey := ⟨"t", durableKey ["t", "c", "a", "job"]⟩

/-- A job is stored and its attempt handed over. -/
def handedOver (policy : NativeResponsePolicy) : List JobOp :=
  [.account (.configure sampleStore), .account (.begin none (samplePlan "r" "x") 1 1),
   .account (.accept ⟨"t", "r", "x", 0⟩ "" 2),
   .acknowledge "t" "c" "a" "job" "predict" "r" "x" policy (answer "starting") (Time.ofUnix 3),
   .account (.finalize { tenantID := "t", requestID := "r", attemptID := "x",
                         state := some .jobPending } 4 4)]

/-- A reconciler claims the job, finds it finished, and settles it. -/
def settles (policy : NativeResponsePolicy) (status : String) : List JobOp :=
  handedOver policy ++
    [.claim "w" 60000000000 10 (Time.ofUnix 10) (Time.ofUnix 10),
     .poll sampleJob 1 (answer status) (Time.ofUnix 11) (Time.ofUnix 11),
     .finalize sampleJob 1 (Time.ofUnix 12) 12 12,
     .close sampleJob 1 (Time.ofUnix 13) (Time.ofUnix 13)]

/-- An administrator cancels the job, and the provider answers that it is cancelled. -/
def cancels : List JobOp :=
  handedOver prediction ++
    [.adminClaim "t" "admin" "job" 1 (Time.ofUnix 10),
     .adminCancel sampleJob 1 { statusField := "status" }
       ⟨some (answer "canceled"), false, by intro h; cases h⟩ (Time.ofUnix 11)]

/-- A batch that is settled is not selected again. -/
theorem batch_settled_not_selected :
    sampleJob ∈ (after asciiCase false (settles batch "completed")).settled ∧
      ¬ (after asciiCase false (settles batch "completed")).Selects sampleJob := by
  have hsettled : sampleJob ∈ (after asciiCase false (settles batch "completed")).settled := by
    decide
  have halong : Along (JobSystem.step asciiCase false) (JobStep asciiCase) {}
      (settles batch "completed" ++ []) := by
    refine ⟨trivial, trivial, trivial, ?_, ?_, trivial, ?_, trivial, ?_, trivial⟩
    · -- the attempt has been accepted and not handed over yet
      rintro ⟨row, hrow, hstate⟩
      cases hrow
      cases hstate
    · -- the stored job is `starting`
      intro k _
      refine ⟨fun row hrow _ => ?_, fun e he _ => absurd he (Multiset.notMem_zero e)⟩
      have hopen : ∀ row ∈ Table.rows
          (after asciiCase false ((handedOver batch).take 4)).jobs, row.job.filtered = false := by
        decide
      exact hopen row hrow
    · -- `completed` is a terminal word of the batch
      intro e he metadata hmeta
      cases he
      cases hmeta
      decide
    · intro e he
      cases he
      decide
  exact ⟨hsettled, (settled_leave_pending_stay asciiCase false (settles batch "completed") []
    halong).1 sampleJob hsettled⟩

/-- A settled prediction is selected again; and a prediction that is cancelled
while its attempt waits is never selected, at any time. -/
theorem prediction_reclaimed_and_cancelled_stranded :
    (sampleJob ∈ (after asciiCase false (settles prediction "succeeded")).settled ∧
      (after asciiCase false (settles prediction "succeeded")).Selects sampleJob) ∧
    ((after asciiCase false cancels).store.JobPending ⟨"t", "x"⟩ ∧
      ¬ (after asciiCase false cancels).Selects sampleJob ∧
      ∃ row, (after asciiCase false cancels).jobs.lookup sampleJob = some row ∧
        row.job.attempt = ⟨"t", "x"⟩ ∧ ∀ now, row.job.eligible now = false) := by
  refine ⟨⟨by decide, ?_⟩, ?_, ?_, ?_⟩
  · exact ⟨"w", 60000000000, 10, Time.ofUnix 100, Time.ofUnix 100, _, _, rfl, by decide⟩
  · exact ⟨_, rfl, rfl⟩
  · intro hsel
    obtain ⟨row, hrow, hopen⟩ := hsel.open
    cases hrow
    exact absurd hopen (by decide)
  · exact ⟨_, rfl, rfl, fun now => rfl⟩

end JobSystem

end Hoorific
