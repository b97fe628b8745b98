/-
What the transactions on job records do: one lemma for each, which turns a
successful run into a statement about the record that was found and the
record that replaced it.
-/
import Hoorific.Lib.Check
import Hoorific.Jobs.System

namespace Hoorific

open Tx

variable {jobs jobs' : Jobs} {u : Unit}

/-- Records are stored under their own key. -/
def Keyed (jobs : Jobs) : Prop := ∀ k row, jobs.lookup k = some row → row.job.key = k

variable {j : Job} {k : JobKey} {row : JobRow} {postgres : Bool} {owner tenantID id : String}
  {fence limit : ℤ} {now : Time} {after cursor : Option JobKey} {n : ℕ}

theorem putJob_runs (h : Runs (putJob j) jobs u jobs') :
    jobs.lookup j.key = none ∧ jobs' = jobs.insert j.key ⟨1, j⟩ := by
  simp only [putJob, durablePut, runs_bind, runs_require, runs_get, if_true, runs_modify] at h
  obtain ⟨_, _, ⟨-, rfl⟩, _, _, ⟨rfl, rfl⟩, _, _, ⟨hnone, rfl⟩, rfl⟩ := h
  exact ⟨Option.isNone_iff_eq_none.1 hnone, rfl⟩

/-- A put under a key that is taken replaces the record of that version. -/
theorem durablePut_runs {version : ℤ} (hrow : jobs.lookup k = some row)
    (h : Runs (durablePut k version j) jobs u jobs') :
    row.version = version ∧ jobs' = jobs.insert k ⟨version + 1, j⟩ := by
  simp only [durablePut, runs_bind, runs_get, runs_ite, runs_require, runs_modify] at h
  obtain ⟨_, _, ⟨rfl, rfl⟩, ⟨-, _, _, ⟨hnone, rfl⟩, -⟩ | ⟨-, _, _, ⟨hver, rfl⟩, rfl⟩⟩ := h
  · rw [hrow] at hnone
    cases hnone
  · rw [hrow] at hver
    exact ⟨by simpa using hver, rfl⟩

theorem sameJob_key {old : Job} (h : sameJob old j = true) :
    old.key = j.key ∧ old.attempt = j.attempt := by
  simp only [sameJob, Bool.and_eq_true, beq_iff_eq] at h
  obtain ⟨⟨⟨⟨⟨⟨⟨h₁, h₂⟩, h₃⟩, h₄⟩, -⟩, -⟩, -⟩, h₅⟩ := h
  constructor
  · simp [Job.key, jobID, h₁, h₂, h₃, h₄]
  · simp [Job.attempt, h₁, h₅]

/-- **`UpdateJob`**: the holder of the lease replaces the record, its
identity kept and the lease kept or released. -/
theorem updateJob_holder (h : Runs (updateJob postgres j owner fence now) jobs u jobs') :
    ∃ row, jobs.lookup j.key = some row ∧ owner ≠ "" ∧ row.job.leaseOwner = owner ∧
      row.job.fence = fence ∧ (expiryClock postgres now).nanos < row.job.leaseUntil.nanos ∧
      sameJob row.job j = true ∧ leaseKept row.job j = true ∧
      jobs' = jobs.insert j.key ⟨row.version + 1, { j with fence := fence, updatedAt := now }⟩ := by
  simp only [updateJob, runs_require_bind, runs_get_bind, runs_orFail_bind,
    Bool.and_eq_true, beq_iff_eq, bne_iff_ne, decide_eq_true_eq] at h
  obtain ⟨⟨⟨howner, -⟩, -⟩, row, hrow, ⟨⟨hholder, hfence⟩, hexpiry⟩, hsame, hkept, hput⟩ := h
  rw [(sameJob_key hsame).1, hfence] at hput
  obtain ⟨-, rfl⟩ := durablePut_runs hrow hput
  exact ⟨row, hrow, howner, hholder, hfence, hexpiry, hsame, hkept, rfl⟩

theorem getJobAction_ok (hkeyed : Keyed jobs) (h : getJobAction jobs tenantID id = .ok row) :
    jobs.lookup row.job.key = some row ∧ (⟨tenantID, jobID row.job⟩ : JobKey) = row.job.key := by
  unfold getJobAction at h
  split at h
  · cases h
  split at h
  · cases h
  next e hsel =>
    cases h
    have hmem : e ∈ Table.select
        (fun k row => k.tenantID == tenantID && row.job.resourceID == id) jobs := by
      rw [hsel]
      exact List.mem_singleton_self e
    obtain ⟨hrow, hp⟩ := Table.mem_select_iff.1 (show (e.1, e.2) ∈ _ from hmem)
    have hkey : e.2.job.key = e.1 := hkeyed e.1 e.2 hrow
    have htenant : e.2.job.tenantID = tenantID := by
      simp only [Bool.and_eq_true, beq_iff_eq] at hp
      rw [← hp.1, ← hkey]
      rfl
    exact ⟨by rw [hkey]; exact hrow, by rw [← htenant]; rfl⟩
  · cases h

/-- **`ClaimJobAction`**: the record gets the next fence. -/
theorem claimJobAction_runs {subjectID : String} {expected : ℤ} {out : Job × ℤ}
    (hkeyed : Keyed jobs)
    (h : Runs (claimJobAction tenantID subjectID id expected now) jobs out jobs') :
    ∃ row, jobs.lookup row.job.key = some row ∧
      out.1 = row.job.claimed ("admin:" ++ subjectID) 30000000000 now ∧
      jobs' = jobs.insert row.job.key ⟨expected + 1, out.1⟩ := by
  simp only [claimJobAction, runs_require_bind, runs_get_bind, runs_orFail_bind,
    runs_liftE_bind, runs_modify_bind, runs_pure] at h
  obtain ⟨row, hget, -, -, old, hold, -, rfl, rfl⟩ := h
  obtain ⟨hrow, hk⟩ := getJobAction_ok hkeyed hget
  exact ⟨row, hrow, rfl, by rw [hk]⟩

/-! ### `ClaimJobs` -/

theorem mem_jobsAfter (h : (k, row) ∈ jobsAfter jobs after n) : jobs.lookup k = some row := by
  have hmem := List.mem_of_mem_take h
  rw [List.mem_insertionSort] at hmem
  exact (Table.mem_select_iff.1 hmem).1

/-- A record that `ClaimJobs` may select. -/
def Claimable (jobs : Jobs) (now : Time) (e : JobKey × JobRow) : Prop :=
  jobs.lookup e.1 = some e.2 ∧ e.2.job.eligible now = true ∧ e.2.job.key = e.1

theorem scanRow_claimable {acc acc' : Scan} {e : JobKey × JobRow}
    (hrow : jobs.lookup e.1 = some e.2) (hacc : ∀ c ∈ acc.candidates, Claimable jobs now c)
    (h : scanRow now acc e = .ok acc') : ∀ c ∈ acc'.candidates, Claimable jobs now c := by
  unfold scanRow at h
  split at h
  · cases h
    exact hacc
  next helig =>
    split at h
    · cases h
    next hid =>
      cases h
      refine List.forall_mem_append.2 ⟨hacc, List.forall_mem_singleton.2 ?_⟩
      push Not at hid
      refine ⟨hrow, by simpa using helig, ?_⟩
      rw [Job.key, hid.1, hid.2.1]

theorem scan_claimable {out : Scan} (h : scan jobs after n now = .ok out) :
    ∀ c ∈ out.candidates, Claimable jobs now c := by
  unfold scan at h
  refine Check.foldlM_ok_inv (fun acc => ∀ c ∈ acc.candidates, Claimable jobs now c) h ?_ ?_
  · intro c hc
    cases hc
  · intro e he acc acc' hacc hstep
    exact scanRow_claimable (mem_jobsAfter he) hacc hstep

theorem claimCandidates_claimable {last : Option JobKey} {out : List (JobKey × JobRow)}
    (h : claimCandidates jobs cursor limit now = .ok (out, last)) :
    ∀ c ∈ out, Claimable jobs now c := by
  -- the candidates come from one scan, or from two if the first reached the end
  obtain ⟨all, hall, rfl⟩ : ∃ all : List (JobKey × JobRow), (∀ c ∈ all, Claimable jobs now c) ∧
      (all.insertionSort claimedBefore).take limit.toNat = out := by
    simp only [claimCandidates, Check.bind_ok] at h
    obtain ⟨first, hfirst, hrest⟩ := h
    split at hrest <;> simp only [Check.bind_ok, Check.pure_ok, Prod.mk.injEq] at hrest
    · obtain ⟨wrapped, hwrapped, _, rfl, hout, -⟩ := hrest
      exact ⟨first.candidates ++ wrapped.candidates,
        List.forall_mem_append.2 ⟨scan_claimable hfirst, scan_claimable hwrapped⟩, hout⟩
    · obtain ⟨_, rfl, hout, -⟩ := hrest
      exact ⟨first.candidates, scan_claimable hfirst, hout⟩
  intro c hc
  have hmem := List.mem_of_mem_take hc
  rw [List.mem_insertionSort] at hmem
  exact hall c hmem

variable {lease : ℤ} {claimedAt : Time} {t t' : Jobs} {l done : List (JobKey × JobRow)}
  {x : JobKey × JobRow} {ret ret' : List Job} {out : List Job × Option JobKey}

/-- What the loop of `ClaimJobs` has done after some of its candidates: their
records are claimed, each once, and the others are as they were. -/
structure Claimed (jobs : Jobs) (owner : String) (lease : ℤ) (claimedAt : Time)
    (done : List (JobKey × JobRow)) (ret : List Job) (t : Jobs) : Prop where
  once : (done.map Prod.fst).Nodup
  answer : ret = done.map fun e => e.2.job.claimed owner lease claimedAt
  stored : ∀ e ∈ done,
    t.lookup e.1 = some ⟨e.2.version + 1, e.2.job.claimed owner lease claimedAt⟩
  others : ∀ k ∉ done.map Prod.fst, t.lookup k = jobs.lookup k

theorem Claimed.start : Claimed jobs owner lease claimedAt [] [] jobs :=
  ⟨List.nodup_nil, rfl, by simp, fun _ _ => rfl⟩

/-- The next candidate is as it was read, for no record is claimed twice. -/
theorem Claimed.step (hl : ∀ e ∈ l, jobs.lookup e.1 = some e.2) (hpre : done ++ [x] <+: l)
    (h : Claimed jobs owner lease claimedAt done ret t)
    (hrun : Runs (claimEach owner lease claimedAt ret x) t ret' t') :
    (t.lookup x.1 = some x.2 ∧ ret' = ret ++ [x.2.job.claimed owner lease claimedAt] ∧
      t' = t.insert x.1 ⟨x.2.version + 1, x.2.job.claimed owner lease claimedAt⟩) ∧
    Claimed jobs owner lease claimedAt (done ++ [x]) ret' t' := by
  simp only [claimEach, runs_bind, runs_pure] at hrun
  obtain ⟨_, t₁, hput, rfl, rfl⟩ := hrun
  have hx := hl x (hpre.subset (by simp))
  have hnew : x.1 ∉ done.map Prod.fst := by
    intro hmem
    obtain ⟨e, he, hkey⟩ := List.mem_map.1 hmem
    have hsame := (hl e (hpre.subset (by simp [he]))).symm.trans (hkey ▸ hx)
    -- the first claim has left the next version
    have hver := (durablePut_runs (hkey ▸ h.stored e he) hput).1
    rw [Option.some.inj hsame] at hver
    simp at hver
  have hrow := (h.others _ hnew).trans hx
  obtain ⟨-, rfl⟩ := durablePut_runs hrow hput
  refine ⟨⟨hrow, rfl, rfl⟩, ?_, by simp [h.answer], ?_, ?_⟩
  · rw [List.map_append, List.map_singleton]
    exact List.nodup_append_comm.2 (List.nodup_cons.2 ⟨hnew, h.once⟩)
  · refine List.forall_mem_append.2 ⟨fun e he => ?_, List.forall_mem_singleton.2 ?_⟩
    · rw [AList.lookup_insert_ne (ne_of_mem_of_not_mem (List.mem_map_of_mem he) hnew)]
      exact h.stored e he
    · exact AList.lookup_insert _
  · intro k hk
    simp only [List.map_append, List.map_singleton, List.mem_append, List.mem_singleton,
      not_or] at hk
    rw [AList.lookup_insert_ne hk.2]
    exact h.others k hk.1

theorem Claimed.run (hl : ∀ e ∈ l, jobs.lookup e.1 = some e.2)
    (h : Runs (l.foldlM (claimEach owner lease claimedAt) []) jobs ret t) :
    Claimed jobs owner lease claimedAt l ret t := by
  refine runs_foldlM_induct _ h .start ?_
  intro done x c t c' t' hpre hdone hrun
  exact (hdone.step hl hpre hrun).2

/-- **`ClaimJobs`** claims records that it may select, one after the other. -/
theorem claimJobs_loop (h : Runs (claimJobs owner lease limit cursor now claimedAt) jobs out jobs') :
    ∃ l : List (JobKey × JobRow), (∀ c ∈ l, Claimable jobs now c) ∧
      Runs (l.foldlM (claimEach owner lease claimedAt) []) jobs out.1 jobs' := by
  simp only [claimJobs, runs_require_bind, runs_get_bind, runs_liftE_bind] at h
  obtain ⟨-, ⟨l, last⟩, hcand, h⟩ := h
  obtain ⟨claimed, _, hloop, h⟩ := runs_bind.1 h
  obtain ⟨rfl, rfl⟩ := runs_pure.1 h
  exact ⟨l, claimCandidates_claimable hcand, hloop⟩

theorem claimJobs_done (h : Runs (claimJobs owner lease limit cursor now claimedAt) jobs out jobs') :
    ∃ l, (∀ c ∈ l, Claimable jobs now c) ∧ Claimed jobs owner lease claimedAt l out.1 jobs' := by
  obtain ⟨l, hl, hloop⟩ := claimJobs_loop h
  exact ⟨l, hl, .run (fun e he => (hl e he).1) hloop⟩

/-- `ClaimJobs`, as an induction rule: whatever holds before the claim and
is kept by each claimed record holds after it.  A claimed record is one
that `ClaimJobs` may select, and no record is claimed twice. -/
theorem claimJobs_runs (P : List Job → Jobs → Prop)
    (h : Runs (claimJobs owner lease limit cursor now claimedAt) jobs out jobs') (h0 : P [] jobs)
    (step : ∀ k row ret t, Claimable jobs now (k, row) → t.lookup k = some row → P ret t →
      P (ret ++ [row.job.claimed owner lease claimedAt])
        (t.insert k ⟨row.version + 1, row.job.claimed owner lease claimedAt⟩)) :
    P out.1 jobs' := by
  obtain ⟨l, hl, hloop⟩ := claimJobs_loop h
  have key := runs_foldlM_induct (fun done ret t => P ret t ∧
    Claimed jobs owner lease claimedAt done ret t) hloop ⟨h0, .start⟩ ?_
  · exact key.1
  · rintro done ⟨k, row⟩ ret t ret' t' hpre ⟨hP, hdone⟩ hrun
    obtain ⟨⟨hrow, rfl, rfl⟩, hnext⟩ := hdone.step (fun e he => (hl e he).1) hpre hrun
    exact ⟨step k row ret t (hl _ (hpre.subset (by simp))) hrow hP, hnext⟩

end Hoorific
