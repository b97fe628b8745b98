/-
The parties that work on provider jobs, as one transition system.  The
gateway stores a job for an acknowledged request and hands its attempt
over as `job_pending`; reconcilers claim jobs, poll the provider, finalize
the attempt and close the job; administrators claim a job, act on it and
release it.  Every transaction is a step of its own, so the steps of
different parties interleave freely, and a party that crashes takes no
further step.

Between its transactions a party works on its own copy of the job, the one
its claim returned.  `running` keeps these copies, by the fence of the
claim.  `settled` records the jobs whose settlement has succeeded.
-/
import Hoorific.Jobs.Native
import Hoorific.Store.Runs

namespace Hoorific

/-! ### States -/

/-- What a party has claimed a job for. -/
inductive Duty where
  | reconcile
  | administer
deriving DecidableEq

/-- A party at work: its own copy of the job, and whether it has finalized
the attempt. -/
structure Execution where
  owner : String
  job : Job
  duty : Duty
  finalized : Bool := false
deriving DecidableEq

structure JobSystem where
  store : Store := {}
  jobs : Jobs := ∅
  cursor : Option JobKey := none
  running : Table (JobKey × Int) Execution := ∅
  settled : List JobKey := []

/-- The attempt a job belongs to. -/
def Job.attempt (j : Job) : AttemptKey := ⟨j.tenantID, jobAttemptID j.metadata⟩

/-- An attempt is waiting for its job. -/
def Store.JobPending (s : Store) (k : AttemptKey) : Prop :=
  ∃ row, s.attempts.lookup k = some row ∧ row.state = .jobPending

/-! ### Steps -/

/-- The transactions of the parties. -/
inductive JobOp where
  /-- an accounting transaction; the gateway hands an attempt over with one -/
  | account (op : Op)
  /-- `PutJob` for an acknowledgement -/
  | acknowledge (tenantID connectionID accountID resourceID operation requestID attemptID : String)
      (policy : NativeResponsePolicy) (data : Json) (now : Time)
  /-- `PutJob` for a request whose outcome is unknown -/
  | unknown (tenantID connectionID accountID operation requestID attemptID : String)
      (policy : NativeResponsePolicy) (now : Time)
  | claim (owner : String) (lease limit : Int) (now claimedAt : Time)
  /-- a poll that was answered with `data` -/
  | poll (k : JobKey) (fence : Int) (data : Json) (now updatedAt : Time)
  /-- the `FinalizeAttempt` of `settleNativeJob` -/
  | finalize (k : JobKey) (fence : Int) (now : Time) (chargedAt savedAt : Int)
  /-- the `UpdateJob` of `settleNativeJob` -/
  | close (k : JobKey) (fence : Int) (now updatedAt : Time)
  | adminClaim (tenantID subjectID id : String) (expected : Int) (now : Time)
  /-- an administrator's action that leaves the status as it is -/
  | adminResult (k : JobKey) (fence : Int) (updatedAt : Time)
  /-- a cancellation that the provider answered -/
  | adminCancel (k : JobKey) (fence : Int) (policy : NativeResponsePolicy) (raw : Reply)
      (updatedAt : Time)

namespace JobSystem

variable (s : JobSystem)

/-- A party stops working. -/
def stop (k : JobKey) (fence : Int) : JobSystem := { s with running := s.running.erase (k, fence) }

/-- A party starts working on a job it has claimed. -/
def start (owner : String) (duty : Duty) (j : Job) : JobSystem :=
  { s with running := s.running.insert (j.key, j.fence) { owner := owner, job := j, duty := duty } }

/-- `PutJob` as a step. -/
def put (j : Job) : JobSystem := { s with jobs := (Tx.commit (putJob j) s.jobs).2 }

/-- The party working under `fence` writes `j` back and continues as `next`
says if the update succeeds; otherwise it stops. -/
def update (postgres : Bool) (s : JobSystem) (k : JobKey) (fence : Int) (e : Execution) (j : Job)
    (updatedAt : Time) (next : JobSystem → JobSystem) : JobSystem :=
  match Tx.commit (updateJob postgres j e.owner fence updatedAt) s.jobs with
  | (.ok _, jobs) => next { s with jobs := jobs }
  | (.error _, _) => s.stop k fence

/-- `reconcileNativeJob` polls only with a declared endpoint, while its lease runs. -/
def pollable (e : Execution) (policy : NativeResponsePolicy) (now : Time) : Bool :=
  e.duty == .reconcile && !e.finalized && !e.job.settlementPending &&
    policy.pollEndpoint != "" && policy.pollAction != "" &&
    decide (now.nanos < e.job.leaseUntil.nanos)

variable (m : CaseMap) (postgres : Bool) (s : JobSystem)

/-- The poll of `reconcileNativeJob`: a terminal status is stored and settled
next, any other status ends the work. -/
def poll (k : JobKey) (fence : Int) (data : Json) (now updatedAt : Time) : JobSystem :=
  match s.running.lookup (k, fence) with
  | none => s
  | some e => match e.job.metadata with
    | none => s.stop k fence
    | some metadata =>
      if pollable e metadata.policy now = false then s
      else if nativeStatus m data metadata.policy.statusField = "" then s.stop k fence
      else
        let j := e.job.polled m metadata.policy data now
        s.update postgres k fence e j updatedAt fun s =>
          if j.settlementPending then
            { s with running := s.running.insert (k, fence) { e with job := j } }
          else s.stop k fence

/-- The first half of `settleNativeJob`. -/
def finalize (k : JobKey) (fence : Int) (now : Time) (chargedAt savedAt : Int) : JobSystem :=
  match s.running.lookup (k, fence) with
  | none => s
  | some e => match e.job.metadata with
    | none => s.stop k fence
    | some metadata =>
      if e.duty = .reconcile ∧ e.finalized = false ∧ e.job.settlementPending = true ∧
          now.nanos < e.job.leaseUntil.nanos then
        match Tx.commit (finalizeAttempt (settlementOutcome m e.job metadata.attemptID)
            chargedAt savedAt) s.store with
        | (.ok _, store) =>
          { s with store := store,
                   running := s.running.insert (k, fence) { e with finalized := true } }
        | (.error _, _) => s.stop k fence
      else s

/-- The second half of `settleNativeJob`. -/
def close (k : JobKey) (fence : Int) (now updatedAt : Time) : JobSystem :=
  match s.running.lookup (k, fence) with
  | none => s
  | some e =>
    if e.finalized = true then
      s.update postgres k fence e (e.job.settled now) updatedAt fun s =>
        { s.stop k fence with settled := k :: s.settled }
    else s

/-- An administrator releases the job with a status. -/
def release (k : JobKey) (fence : Int) (status : Job → String) (updatedAt : Time) : JobSystem :=
  match s.running.lookup (k, fence) with
  | none => s
  | some e =>
    if e.duty = .administer then
      s.update postgres k fence e { e.job with status := status e.job }.released updatedAt fun s =>
        s.stop k fence
    else s

/-- The claimed jobs are worked on under their new fences. -/
def claim (owner : String) (lease limit : Int) (now claimedAt : Time) : JobSystem :=
  match Tx.commit (claimJobs owner lease limit s.cursor now claimedAt) s.jobs with
  | (.ok (out, last), jobs) =>
    out.foldl (fun s j => s.start owner .reconcile j) { s with jobs := jobs, cursor := last }
  | (.error _, _) =>
    -- the cursor moves once the candidates are known, even if the claim then fails
    if owner = "" ∨ lease ≤ 0 ∨ limit ≤ 0 then s
    else { s with cursor := ((claimCandidates s.jobs s.cursor limit now).map Prod.snd).toOption.getD
                              s.cursor }

def adminClaim (tenantID subjectID id : String) (expected : Int) (now : Time) : JobSystem :=
  match Tx.commit (claimJobAction tenantID subjectID id expected now) s.jobs with
  | (.ok (j, _), jobs) => { s with jobs := jobs }.start ("admin:" ++ subjectID) .administer j
  | (.error _, _) => s

/-- One transaction of one party. -/
def step : JobOp → JobSystem
  | .account op => { s with store := (op.execute s.store).2 }
  | .acknowledge tenantID connectionID accountID resourceID operation requestID attemptID policy
      data now =>
    s.put (acknowledgedJob m tenantID connectionID accountID resourceID operation requestID
      attemptID policy data now)
  | .unknown tenantID connectionID accountID operation requestID attemptID policy now =>
    s.put (unknownCreate tenantID connectionID accountID operation requestID attemptID policy now)
  | .claim owner lease limit now claimedAt => s.claim owner lease limit now claimedAt
  | .poll k fence data now updatedAt => s.poll m postgres k fence data now updatedAt
  | .finalize k fence now chargedAt savedAt => s.finalize m k fence now chargedAt savedAt
  | .close k fence now updatedAt => s.close postgres k fence now updatedAt
  | .adminClaim tenantID subjectID id expected now => s.adminClaim tenantID subjectID id expected now
  | .adminResult k fence updatedAt => s.release postgres k fence Job.status updatedAt
  | .adminCancel k fence policy raw updatedAt =>
    s.release postgres k fence (fun j => cancellationJobStatus m j.status policy raw) updatedAt

end JobSystem

end Hoorific
