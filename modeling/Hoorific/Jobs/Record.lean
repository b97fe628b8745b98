/-
The durable records of provider jobs: `PutJob`, `ClaimJobs`, `UpdateJob`
and `ClaimJobAction`.  A job is stored under its tenant and the parts of
its identity, with a version that every write advances.  Work on a job is
leased: a claim stores an owner, an expiry and a fence one above the last,
and an update is accepted only from the owner of the current fence while
the lease runs.

A record is found and scanned by its stored id, the base64 text of the JSON
array of its parts.  The clock readings of a transaction are arguments.
-/
import Hoorific.Lib.Base64
import Hoorific.Lib.JsonText
import Hoorific.Lib.Table
import Hoorific.Lib.Tx
import Hoorific.Core
import Mathlib.Data.List.Sort
import Mathlib.Data.String.Basic

namespace Hoorific

open Tx

/-! ### Records -/

/-- The part of a native response policy that jobs are steered by. -/
structure NativeResponsePolicy where
  statusField : String := ""
  pollEndpoint : String := ""
  pollAction : String := ""
  usageField : String := ""
  cancelAction : String := ""
  resultAction : String := ""
  terminalStatuses : List String := []
  failureStatuses : List String := []
deriving DecidableEq

/-- The metadata stored with a job. -/
structure JobMetadata where
  attemptID : String
  policy : NativeResponsePolicy := {}
deriving DecidableEq

/-- A provider job; `metadata` is `none` when it is not valid JSON. -/
structure Job where
  tenantID : String
  connectionID : String
  accountID : String
  resourceID : String
  operation : String := ""
  status : String
  requestID : String := ""
  usage : Option Usage := none
  createdAt : Time := Time.zero
  updatedAt : Time := Time.zero
  nextPoll : Time := Time.zero
  leaseOwner : String := ""
  fence : Int := 0
  leaseUntil : Time := Time.zero
  settlementPending : Bool := false
  metadata : Option JobMetadata := none
deriving DecidableEq

structure JobKey where
  tenantID : String
  id : String
deriving DecidableEq

/-- The id of a record: the URL-safe base64 text of the JSON array of its parts. -/
def durableKey (parts : List String) : String :=
  String.ofList <| (Base64.encode (Bytes.utf8 (JsonText.array (parts.map JsonText.string)))).map
    fun c => Char.ofNat c.toNat

variable (j : Job)

def jobID : String := durableKey [j.tenantID, j.connectionID, j.accountID, j.resourceID]

def Job.key : JobKey := ⟨j.tenantID, jobID j⟩

def jobAttemptID (metadata : Option JobMetadata) : String :=
  (metadata.map JobMetadata.attemptID).getD ""

/-- A row of `durable_records` of kind `resource_job`. -/
structure JobRow where
  version : Int
  job : Job
deriving DecidableEq

abbrev Jobs := Table JobKey JobRow

abbrev JobTx := Tx Jobs StoreError

/-! ### Writing -/

/-- `durablePut`: version 0 inserts a new record, any other version replaces
the record that has it. -/
def durablePut (k : JobKey) (version : Int) (j : Job) : JobTx Unit := do
  let jobs ← get
  if version = 0 then do
    require (jobs.lookup k).isNone (.plain "credential version or refresh fence changed")
    modify fun jobs => jobs.insert k ⟨1, j⟩
  else do
    require ((jobs.lookup k).any fun row => row.version == version)
      (.plain "credential version or refresh fence changed")
    modify fun jobs => jobs.insert k ⟨version + 1, j⟩

def putJob : JobTx Unit := do
  require (j.tenantID != "" && j.connectionID != "" && j.accountID != "" && j.resourceID != "")
    (.plain "invalid job scope")
  durablePut j.key 0 j

/-- What the owner of a lease may write: the lease released, or left as it is. -/
def leaseKept (old j : Job) : Bool :=
  j.leaseOwner == "" && j.leaseUntil.isZero ||
    j.leaseOwner == old.leaseOwner && j.leaseUntil == old.leaseUntil

/-- The identity of a job, which no update changes. -/
def sameJob (old j : Job) : Bool :=
  j.tenantID == old.tenantID && j.connectionID == old.connectionID &&
  j.accountID == old.accountID && j.resourceID == old.resourceID &&
  j.requestID == old.requestID && j.operation == old.operation && j.createdAt == old.createdAt &&
  jobAttemptID j.metadata == jobAttemptID old.metadata

/-- The clock a lease is compared with: SQLite has milliseconds, so the last
one is not trusted. -/
def expiryClock (postgres : Bool) (now : Time) : Time :=
  if postgres then now else ⟨now.nanos + 1000000⟩

def updateJob (postgres : Bool) (j : Job) (owner : String) (fence : Int) (now : Time) :
    JobTx Unit := do
  require (owner != "" && decide (0 < fence) && j.fence == fence) (.plain "stale job lease")
  let jobs ← get
  let row ← orFail (jobs.lookup j.key) .noRows
  let old := row.job
  require (old.leaseOwner == owner && old.fence == fence &&
      decide ((expiryClock postgres now).nanos < old.leaseUntil.nanos))
    (.plain "stale job lease")
  require (sameJob old j) (.plain "immutable job identity")
  require (leaseKept old j) (.plain "invalid job lease mutation")
  durablePut old.key row.version { j with fence := old.fence, updatedAt := now }

/-! ### Claiming -/

/-- The statuses at which a job without pending settlement is finished. -/
def finishedStatuses : List String := ["settled", "completed", "failed", "cancelled"]

/-- The status filter of `ClaimJobs`. -/
def Job.filtered : Bool :=
  j.status == "outcome_unknown" || finishedStatuses.contains j.status && !j.settlementPending

/-- A job `ClaimJobs` may select at `now`. -/
def Job.eligible (now : Time) : Bool :=
  !j.filtered && decide (j.nextPoll.nanos ≤ now.nanos) && decide (j.leaseUntil.nanos ≤ now.nanos)

/-- The texts a key is ordered by. -/
def JobKey.texts (k : JobKey) : List String := [k.tenantID, k.id]

/-- The state of a scan: the candidates, the last key read and how many. -/
structure Scan where
  candidates : List (JobKey × JobRow) := []
  last : Option JobKey
  count : Nat := 0

/-- One row of a scan. -/
def scanRow (now : Time) (acc : Scan) (e : JobKey × JobRow) : Except StoreError Scan :=
  let acc := { acc with last := some e.1, count := acc.count + 1 }
  if !e.2.job.eligible now then .ok acc
  else if e.2.job.tenantID ≠ e.1.tenantID ∨ jobID e.2.job ≠ e.1.id ∨ e.2.job.fence < 0 ∨
      e.2.job.fence = 2 ^ 63 - 1 then
    .error (.plain "invalid persisted job identity or fence")
  else .ok { acc with candidates := acc.candidates ++ [e] }

variable (jobs : Jobs)

/-- A cursor without a tenant is none. -/
def placed (cursor : Option JobKey) : Option JobKey := cursor.filter fun k => k.tenantID != ""

/-- `SELECT ... WHERE kind='resource_job' AND key > after ORDER BY key LIMIT n`. -/
def jobsAfter (after : Option JobKey) (n : Nat) : List (JobKey × JobRow) :=
  ((Table.select (fun k _ => (placed after).all fun a => decide (a.texts < JobKey.texts k))
    jobs).insertionSort fun a b => a.1.texts ≤ b.1.texts).take n

/-- The scan of `ClaimJobs`. -/
def scan (after : Option JobKey) (n : Nat) (now : Time) : Except StoreError Scan :=
  (jobsAfter jobs after n).foldlM (scanRow now) { last := after }

def scanBudget (limit : Int) : Nat := max (if limit < 8 then limit * 16 else 1024) 128 |>.toNat

/-- The order in which candidates are claimed. -/
def claimedBefore (a b : JobKey × JobRow) : Prop :=
  if a.2.job.nextPoll ≠ b.2.job.nextPoll then a.2.job.nextPoll.nanos < b.2.job.nextPoll.nanos
  else if a.2.job.updatedAt ≠ b.2.job.updatedAt then
    a.2.job.updatedAt.nanos < b.2.job.updatedAt.nanos
  else a.1.texts ≤ b.1.texts

instance : DecidableRel claimedBefore := fun a b => by
  unfold claimedBefore
  infer_instance

/-- The candidates of `ClaimJobs` and the cursor it leaves: a scan from the
cursor, continued at the beginning if budget is left. -/
def claimCandidates (cursor : Option JobKey) (limit : Int) (now : Time) :
    Except StoreError (List (JobKey × JobRow) × Option JobKey) := do
  let budget := scanBudget limit
  let first ← scan jobs cursor budget now
  let (candidates, last) ← if first.count < budget ∧ (placed cursor).isSome then do
      let wrapped ← scan jobs none (budget - first.count) now
      pure (first.candidates ++ wrapped.candidates,
        if 0 < wrapped.count then wrapped.last else first.last)
    else pure (first.candidates, first.last)
  pure ((candidates.insertionSort claimedBefore).take limit.toNat, last)

/-- The job as its new owner receives it. -/
def Job.claimed (owner : String) (lease : Int) (claimedAt : Time) : Job :=
  { j with leaseOwner := owner, fence := j.fence + 1,
           leaseUntil := ⟨claimedAt.nanos + lease⟩, updatedAt := claimedAt }

/-- The loop of `ClaimJobs` over its candidates. -/
def claimEach (owner : String) (lease : Int) (claimedAt : Time) (out : List Job)
    (e : JobKey × JobRow) : JobTx (List Job) := do
  durablePut e.1 e.2.version (e.2.job.claimed owner lease claimedAt)
  pure (out ++ [e.2.job.claimed owner lease claimedAt])

/-- `ClaimJobs`, after the cursor has been read: the jobs claimed and the
cursor it leaves. -/
def claimJobs (owner : String) (lease limit : Int) (cursor : Option JobKey)
    (now claimedAt : Time) : JobTx (List Job × Option JobKey) := do
  require (owner != "" && decide (0 < lease) && decide (0 < limit)) (.plain "invalid job lease")
  let jobs ← get
  let (candidates, last) ← liftE (claimCandidates jobs cursor limit now)
  let out ← candidates.foldlM (claimEach owner lease claimedAt) []
  pure (out, last)

/-- `GetJobAction`: the one job of the tenant with this upstream id. -/
def getJobAction (tenantID id : String) : Except StoreError JobRow :=
  if tenantID = "" ∨ id = "" then .error (.plain "job identity required")
  else match Table.select (fun k row => k.tenantID == tenantID && row.job.resourceID == id) jobs with
    | [] => .error .noRows
    | [e] => .ok e.2
    | _ => .error (problem "conflict" 409 "ambiguous upstream resource ID")

/-- `ClaimJobAction` with a positive expected version, under which the row it
reads first and the row it replaces are the same. -/
def claimJobAction (tenantID subjectID id : String) (expected : Int) (now : Time) :
    JobTx (Job × Int) := do
  let jobs ← get
  let row ← liftE (getJobAction jobs tenantID id)
  require (decide (0 < expected) && row.version == expected)
    (problem "version_conflict" 412 "job changed")
  require (row.job.leaseOwner == "" || decide (row.job.leaseUntil.nanos ≤ now.nanos))
    (problem "conflict" 409 "job is already leased")
  let j := row.job.claimed ("admin:" ++ subjectID) 30000000000 now
  let k : JobKey := ⟨tenantID, jobID row.job⟩
  let old ← orFail (jobs.lookup k) .noRows
  require (old.version == expected) (problem "version_conflict" 412 "job changed")
  modify fun jobs => jobs.insert k ⟨expected + 1, j⟩
  pure (j, expected + 1)

end Hoorific
