/-
The transactions that lease a job, as the steps of one system: `PutJob`,
`ClaimJobs`, `ClaimJobAction` and `UpdateJob`, by any number of owners.

`ClaimJobAction` is two transactions: it reads the job and checks the
version and the lease, and later replaces the row if the version is still
the one it read.  The model keeps its two halves apart, so that any other
transaction may run between them; `Reads` says what makes the second half
safe: while the version has not moved, neither has the job.

`LeaseChange` says what one call can do to one job (`leaseStep_change`).
-/
import Hoorific.Jobs.Effects

namespace Hoorific

open Tx

/-! ### The two halves of `ClaimJobAction` -/

/-- What `ClaimJobAction` carries from its first transaction to its second. -/
structure ActionReading where
  tenantID : String
  subjectID : String
  job : Job
  expected : ℤ
  readAt : Time

/-- The record the second transaction is about. -/
def ActionReading.key (r : ActionReading) : JobKey := ⟨r.tenantID, jobID r.job⟩

/-- The first half: `GetJobAction` and the checks after it. -/
def readJobAction (jobs : Jobs) (tenantID subjectID id : String) (expected : ℤ) (now : Time) :
    Except StoreError ActionReading := do
  let row ← getJobAction jobs tenantID id
  Check.require (decide (0 < expected) && row.version == expected)
    (problem "version_conflict" 412 "job changed")
  Check.require (row.job.leaseOwner == "" || decide (row.job.leaseUntil.nanos ≤ now.nanos))
    (problem "conflict" 409 "job is already leased")
  pure ⟨tenantID, subjectID, row.job, expected, now⟩

/-- The second half: the transaction of `ClaimJobAction`. -/
def commitJobAction (r : ActionReading) (leasedAt updatedAt : Time) : JobTx Job := do
  let jobs ← get
  let old ← orFail (jobs.lookup r.key) .noRows
  require (old.version == r.expected) (problem "version_conflict" 412 "job changed")
  let j := { r.job.claimed ("admin:" ++ r.subjectID) 30000000000 leasedAt with
    updatedAt := updatedAt }
  modify fun jobs => jobs.insert r.key ⟨old.version + 1, j⟩
  pure j

/-! ### The system -/

/-- A job as the gateway first stores it: nobody has leased it. -/
abbrev NewJob := { j : Job // j.leaseOwner = "" ∧ j.fence = 0 }

structure LeaseSystem where
  jobs : Jobs := ∅
  /-- what administrators have read and not yet used, or used already -/
  readings : List ActionReading := []

/-- A call, with its clock readings. -/
inductive LeaseOp where
  | put (j : NewJob)
  | claim (owner : String) (lease limit : ℤ) (cursor : Option JobKey) (now claimedAt : Time)
  /-- the first half of `ClaimJobAction` -/
  | read (tenantID subjectID id : String) (expected : ℤ) (now : Time)
  /-- the second half, for the reading with this number -/
  | act (n : ℕ) (leasedAt updatedAt : Time)
  | update (postgres : Bool) (j : Job) (owner : String) (fence : ℤ) (now : Time)

/-- The clock readings of a call, in order. -/
def LeaseOp.times : LeaseOp → List ℤ
  | .put _ => []
  | .claim _ _ _ _ now claimedAt => [now.nanos, claimedAt.nanos]
  | .read _ _ _ _ now => [now.nanos]
  | .act _ leasedAt updatedAt => [leasedAt.nanos, updatedAt.nanos]
  | .update _ _ _ _ now => [now.nanos]

inductive LeaseAnswer where
  | done
  /-- a claim succeeded; the jobs as their owner receives them -/
  | claimed (jobs : List Job)
  | updated
  | failed

/-- One call. -/
def leaseStep (s : LeaseSystem) : LeaseOp → LeaseAnswer × LeaseSystem
  | .put j =>
    match commit (putJob j.1) s.jobs with
    | (.ok _, jobs) => (.done, { s with jobs := jobs })
    | (.error _, _) => (.failed, s)
  | .claim owner lease limit cursor now claimedAt =>
    match commit (claimJobs owner lease limit cursor now claimedAt) s.jobs with
    | (.ok out, jobs) => (.claimed out.1, { s with jobs := jobs })
    | (.error _, _) => (.failed, s)
  | .read tenantID subjectID id expected now =>
    match readJobAction s.jobs tenantID subjectID id expected now with
    | .ok r => (.done, { s with readings := s.readings ++ [r] })
    | .error _ => (.failed, s)
  | .act n leasedAt updatedAt =>
    match s.readings[n]? with
    | none => (.failed, s)
    | some r =>
      match commit (commitJobAction r leasedAt updatedAt) s.jobs with
      | (.ok j, jobs) => (.claimed [j], { s with jobs := jobs })
      | (.error _, _) => (.failed, s)
  | .update postgres j owner fence now =>
    match commit (updateJob postgres j owner fence now) s.jobs with
    | (.ok _, jobs) => (.updated, { s with jobs := jobs })
    | (.error _, _) => (.failed, s)

/-! ### What one call does to one job -/

/-- A lease that runs at `t`. -/
def Job.leasedAt (j : Job) (t : ℤ) : Prop := j.leaseOwner ≠ "" ∧ t < j.leaseUntil.nanos

/-- The change of one record by one call. -/
inductive LeaseChange : LeaseOp → LeaseAnswer → JobKey → Option JobRow → Option JobRow → Prop
  | keep {op answer k row} : LeaseChange op answer k row row
  | put {j : NewJob} : LeaseChange (.put j) .done j.1.key none (some ⟨1, j⟩)
  /-- a claim: the next fence, and the same job -/
  | claim {op k row jobs c} (hin : c ∈ jobs) (hkey : c.key = k)
      (hfence : c.fence = row.job.fence + 1) (hsame : sameJob row.job c = true)
      (hfree : row.job.leaseOwner = "" ∨ ∀ t ∈ op.times, row.job.leaseUntil.nanos ≤ t) :
      LeaseChange op (.claimed jobs) k (some row) (some ⟨row.version + 1, c⟩)
  /-- an update by the holder of the lease -/
  | update {postgres j owner fence now row} (hne : owner ≠ "") (howner : row.job.leaseOwner = owner)
      (hfence : row.job.fence = fence)
      (hexpiry : (expiryClock postgres now).nanos < row.job.leaseUntil.nanos)
      (hsame : sameJob row.job j = true) (hkept : leaseKept row.job j = true) :
      LeaseChange (.update postgres j owner fence now) .updated j.key (some row)
        (some ⟨row.version + 1, { j with fence := fence, updatedAt := now }⟩)

theorem sameJob_refl (j : Job) : sameJob j j = true := by
  simp [sameJob]

variable {jobs jobs' : Jobs} {now : Time} {r : ActionReading} {s : LeaseSystem} {op : LeaseOp}

/-- **`ClaimJobs`**, record by record: what it returns is what it stored, over
a record that was eligible; the other records stay. -/
theorem claimJobs_spec {owner : String} {lease limit : ℤ} {cursor : Option JobKey}
    {claimedAt : Time} {out : List Job × Option JobKey}
    (h : Runs (claimJobs owner lease limit cursor now claimedAt) jobs out jobs') :
    (∀ c ∈ out.1, ∃ row, jobs.lookup c.key = some row ∧ row.job.eligible now = true ∧
      c = row.job.claimed owner lease claimedAt ∧
      jobs'.lookup c.key = some ⟨row.version + 1, c⟩) ∧
    ∀ k, (∀ c ∈ out.1, c.key ≠ k) → jobs'.lookup k = jobs.lookup k := by
  obtain ⟨l, hl, hdone⟩ := claimJobs_done h
  have hkey : ∀ e ∈ l, (e.2.job.claimed owner lease claimedAt).key = e.1 :=
    fun e he => (hl e he).2.2
  rw [hdone.answer]
  constructor
  · rw [List.forall_mem_map]
    intro e he
    rw [hkey e he]
    exact ⟨e.2, (hl e he).1, (hl e he).2.1, rfl, hdone.stored e he⟩
  · intro k hk
    refine hdone.others k fun hmem => ?_
    obtain ⟨e, he, rfl⟩ := List.mem_map.1 hmem
    exact hk _ (List.mem_map_of_mem he) (hkey e he)

theorem readJobAction_ok {tenantID subjectID id : String} {expected : ℤ} (hkeyed : Keyed jobs)
    (h : readJobAction jobs tenantID subjectID id expected now = .ok r) :
    jobs.lookup r.key = some ⟨r.expected, r.job⟩ ∧ r.readAt = now ∧
      (r.job.leaseOwner = "" ∨ r.job.leaseUntil.nanos ≤ now.nanos) := by
  simp only [readJobAction, Check.bind_ok, Check.require_ok, Check.pure_ok, Bool.and_eq_true,
    Bool.or_eq_true, beq_iff_eq, decide_eq_true_eq] at h
  obtain ⟨row, hget, -, ⟨-, rfl⟩, -, hfree, rfl⟩ := h
  obtain ⟨hrow, hk⟩ := getJobAction_ok hkeyed hget
  refine ⟨?_, rfl, hfree⟩
  show jobs.lookup ⟨tenantID, jobID row.job⟩ = some row
  rw [hk]
  exact hrow

theorem commitJobAction_runs {leasedAt updatedAt : Time} {j : Job}
    (h : Runs (commitJobAction r leasedAt updatedAt) jobs j jobs') :
    ∃ old, jobs.lookup r.key = some old ∧ old.version = r.expected ∧
      j = { r.job.claimed ("admin:" ++ r.subjectID) 30000000000 leasedAt with
        updatedAt := updatedAt } ∧
      jobs' = jobs.insert r.key ⟨old.version + 1, j⟩ := by
  simp only [commitJobAction, runs_bind, runs_get, runs_orFail, runs_require,
    runs_modify, runs_pure, beq_iff_eq] at h
  obtain ⟨_, _, ⟨rfl, rfl⟩, old, _, ⟨hold, rfl⟩, -, _, ⟨hver, rfl⟩, -, _, rfl, rfl, rfl⟩ := h
  exact ⟨old, hold, hver, rfl, rfl⟩

/-! ### What a reading is worth -/

/-- A reading and the record it is about: the version has moved, or the
record is as it was read.  The lease it read, if any, had expired. -/
structure Reads (jobs : Jobs) (r : ActionReading) : Prop where
  row : ∃ row, jobs.lookup r.key = some row ∧
    (r.expected < row.version ∨ row = ⟨r.expected, r.job⟩)
  free : r.job.leaseOwner = "" ∨ r.job.leaseUntil.nanos ≤ r.readAt.nanos

/-- The records are stored under their keys, and the readings are sound. -/
structure LeaseInv (s : LeaseSystem) : Prop where
  keyed : Keyed s.jobs
  reads : ∀ r ∈ s.readings, Reads s.jobs r

/-- What a call needs of the state and the clock to be described by `LeaseChange`. -/
structure Timely (s : LeaseSystem) (op : LeaseOp) : Prop where
  ordered : op.times.Pairwise (· ≤ ·)
  after_reads : ∀ r ∈ s.readings, ∀ t ∈ op.times, r.readAt.nanos ≤ t

/-- A reading whose version still stands is the record. -/
theorem Reads.current {old : JobRow} (h : Reads jobs r) (hold : jobs.lookup r.key = some old)
    (hver : old.version = r.expected) : old.job = r.job := by
  obtain ⟨row, hrow, hcase⟩ := h.row
  cases hold.symm.trans hrow
  rcases hcase with hmoved | rfl
  · omega
  · rfl

/-- A claim of the job: it was free, and has the next fence now. -/
structure JobClaimed (op : LeaseOp) (jobs jobs' : Jobs) (c : Job) (row : JobRow) : Prop where
  found : jobs.lookup c.key = some row
  fence : c.fence = row.job.fence + 1
  same : sameJob row.job c = true
  free : row.job.leaseOwner = "" ∨ ∀ t ∈ op.times, row.job.leaseUntil.nanos ≤ t
  stored : jobs'.lookup c.key = some ⟨row.version + 1, c⟩

/-- What a call does to the records: each changes as `LeaseChange` says, and the
jobs a claim returns are claimed. -/
structure LeaseSpec (op : LeaseOp) (answer : LeaseAnswer) (jobs jobs' : Jobs) : Prop where
  change : ∀ k, LeaseChange op answer k (jobs.lookup k) (jobs'.lookup k)
  claimed : ∀ out, answer = .claimed out → ∀ c ∈ out, ∃ row, JobClaimed op jobs jobs' c row

theorem JobClaimed.change {c : Job} {row : JobRow} {out : List Job} (h : JobClaimed op jobs jobs' c row)
    (hin : c ∈ out) :
    LeaseChange op (.claimed out) c.key (jobs.lookup c.key) (jobs'.lookup c.key) := by
  rw [h.found, h.stored]
  exact .claim hin rfl h.fence h.same h.free

/-- One record is written. -/
theorem LeaseChange.insert {answer : LeaseAnswer} {key : JobKey} {old : Option JobRow} {new : JobRow}
    (hold : jobs.lookup key = old) (h : LeaseChange op answer key old (some new)) (k : JobKey) :
    LeaseChange op answer k (jobs.lookup k) ((jobs.insert key new).lookup k) := by
  by_cases hk : k = key
  · subst hk
    rw [AList.lookup_insert, hold]
    exact h
  · rw [AList.lookup_insert_ne hk]
    exact .keep

theorem claimJobs_claimed {owner : String} {lease limit : ℤ} {cursor : Option JobKey}
    {claimedAt : Time} {out : List Job × Option JobKey} (hle : now.nanos ≤ claimedAt.nanos)
    (h : Runs (claimJobs owner lease limit cursor now claimedAt) jobs out jobs') {c : Job}
    (hc : c ∈ out.1) :
    ∃ row, JobClaimed (.claim owner lease limit cursor now claimedAt) jobs jobs' c row := by
  obtain ⟨row, hrow, helig, heq, hnew⟩ := (claimJobs_spec h).1 c hc
  refine ⟨row, hrow, by rw [heq]; rfl, by rw [heq]; exact sameJob_refl _, .inr ?_, hnew⟩
  -- the lease had expired when the scan read the clock
  have hlease : row.job.leaseUntil.nanos ≤ now.nanos := by
    simp only [Job.eligible, Bool.and_eq_true, decide_eq_true_eq] at helig
    exact helig.2
  simp only [LeaseOp.times, List.forall_mem_cons, List.not_mem_nil, false_implies,
    implies_true, and_true]
  exact ⟨hlease, hlease.trans hle⟩

theorem commitJobAction_claimed {n : ℕ} {leasedAt updatedAt : Time} {j : Job} (hinv : LeaseInv s)
    (htime : Timely s (.act n leasedAt updatedAt)) (hr : r ∈ s.readings)
    (h : Runs (commitJobAction r leasedAt updatedAt) s.jobs j jobs') :
    ∃ row, JobClaimed (.act n leasedAt updatedAt) s.jobs jobs' j row ∧
      jobs' = s.jobs.insert j.key ⟨row.version + 1, j⟩ := by
  obtain ⟨old, hold, hver, hj, rfl⟩ := commitJobAction_runs h
  have hreads := hinv.reads r hr
  have hjob := hreads.current hold hver
  have hkey : j.key = r.key := by
    rw [hj, ← hinv.keyed _ _ hold, hjob]
    rfl
  rw [← hkey] at hold ⊢
  refine ⟨old, ⟨hold, by rw [hj, hjob]; rfl, by rw [hj, hjob]; exact sameJob_refl _, ?_,
    AList.lookup_insert _⟩, rfl⟩
  rw [hjob]
  exact hreads.free.imp_right fun hle t ht => hle.trans (htime.after_reads r hr t ht)

theorem leaseStep_spec (hinv : LeaseInv s) (htime : Timely s op) :
    LeaseSpec op (leaseStep s op).1 s.jobs (leaseStep s op).2.jobs := by
  cases op with
  | put j =>
    rcases hc : commit (putJob j.1) s.jobs with ⟨e | u, jobs'⟩ <;> simp only [leaseStep, hc]
    · exact ⟨fun _ => .keep, nofun⟩
    · obtain ⟨hnone, rfl⟩ := putJob_runs (commit_ok_iff.1 hc)
      exact ⟨.insert hnone .put, nofun⟩
  | claim owner lease limit cursor now claimedAt =>
    rcases hc : commit (claimJobs owner lease limit cursor now claimedAt) s.jobs with
      ⟨e | out, jobs'⟩
    all_goals simp only [leaseStep, hc]
    · exact ⟨fun _ => .keep, nofun⟩
    · have hruns := commit_ok_iff.1 hc
      have hle : now.nanos ≤ claimedAt.nanos := by simpa [LeaseOp.times] using htime.ordered
      refine ⟨fun k => ?_, ?_⟩
      · by_cases hk : ∃ c ∈ out.1, c.key = k
        · obtain ⟨c, hmem, rfl⟩ := hk
          obtain ⟨row, hclaimed⟩ := claimJobs_claimed hle hruns hmem
          exact hclaimed.change hmem
        · rw [(claimJobs_spec hruns).2 k fun c hmem heq => hk ⟨c, hmem, heq⟩]
          exact .keep
      · rintro _ ⟨⟩ c hmem
        exact claimJobs_claimed hle hruns hmem
  | read tenantID subjectID id expected now =>
    rcases hc : readJobAction s.jobs tenantID subjectID id expected now with e | r
    all_goals
      simp only [leaseStep, hc]
      exact ⟨fun _ => .keep, nofun⟩
  | act n leasedAt updatedAt =>
    rcases hr : s.readings[n]? with - | r
    · simp only [leaseStep, hr]
      exact ⟨fun _ => .keep, nofun⟩
    rcases hc : commit (commitJobAction r leasedAt updatedAt) s.jobs with ⟨e | j, jobs'⟩
    all_goals simp only [leaseStep, hr, hc]
    · exact ⟨fun _ => .keep, nofun⟩
    · obtain ⟨row, hclaimed, rfl⟩ :=
        commitJobAction_claimed hinv htime (List.mem_of_getElem? hr) (commit_ok_iff.1 hc)
      refine ⟨.insert rfl ?_, ?_⟩
      · rw [← AList.lookup_insert s.jobs]
        exact hclaimed.change (List.mem_singleton_self _)
      · rintro _ ⟨⟩ c hmem
        obtain rfl := List.mem_singleton.1 hmem
        exact ⟨row, hclaimed⟩
  | update postgres j owner fence now =>
    rcases hc : commit (updateJob postgres j owner fence now) s.jobs with ⟨e | u, jobs'⟩
    all_goals simp only [leaseStep, hc]
    · exact ⟨fun _ => .keep, nofun⟩
    · obtain ⟨row, hrow, hne, howner, hfence, hexpiry, hsame, hkept, rfl⟩ :=
        updateJob_holder (commit_ok_iff.1 hc)
      exact ⟨.insert hrow (.update hne howner hfence hexpiry hsame hkept), nofun⟩

end Hoorific
