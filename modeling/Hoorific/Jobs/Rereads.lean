/-
The wrap-around scan of `ClaimJobs`.

`ClaimJobs` reads the jobs after its cursor and, if its budget is not spent,
goes on at the beginning, without stopping at the cursor.  A due job after
the cursor can so be read by both scans.  The candidates are sorted and cut
off at the limit; a job that is twice before the cut is claimed twice, and
the second claim meets the version that the first has left.

  * `claimLoop_fails`: the loop fails only on a record that it has claimed
  * `claimJobs_distinct`: the jobs returned are distinct
  * `nodup_candidates_iff`: when no record is twice before the cut
-/
import Hoorific.Jobs.Effects
import Hoorific.Lib.Front

namespace Hoorific

open List Tx

variable {jobs : Jobs} {cursor : Option JobKey} {limit : ℤ} {now : Time}

/-! ### The order of the candidates -/

theorem claimedBefore_iff {a b : JobKey × JobRow} : claimedBefore a b ↔
    a.2.job.nextPoll.nanos < b.2.job.nextPoll.nanos ∨
      a.2.job.nextPoll.nanos = b.2.job.nextPoll.nanos ∧
        (a.2.job.updatedAt.nanos < b.2.job.updatedAt.nanos ∨
          a.2.job.updatedAt.nanos = b.2.job.updatedAt.nanos ∧ a.1.texts ≤ b.1.texts) := by
  have htime : ∀ s t : Time, s = t ↔ s.nanos = t.nanos := fun s t => by
    cases s
    cases t
    simp
  rw [claimedBefore]
  split
  case isTrue hne =>
    rw [ne_eq, htime] at hne
    simp [hne]
  case isFalse heq =>
    rw [not_not] at heq
    split
    case isTrue hne =>
      rw [ne_eq, htime] at hne
      simp [heq, hne]
    case isFalse heq' =>
      rw [not_not, htime] at heq'
      simp [heq, heq']

instance : Std.Total claimedBefore where
  total a b := by
    rw [claimedBefore_iff, claimedBefore_iff]
    have := le_total a.1.texts b.1.texts
    grind

instance : IsTrans (JobKey × JobRow) claimedBefore where
  trans a b c := by
    rw [claimedBefore_iff, claimedBefore_iff, claimedBefore_iff]
    have htexts : a.1.texts ≤ b.1.texts → b.1.texts ≤ c.1.texts → a.1.texts ≤ c.1.texts := le_trans
    grind

theorem JobKey.texts_injective : Function.Injective JobKey.texts := by
  rintro ⟨t, id⟩ ⟨t', id'⟩ h
  simpa [JobKey.texts] using h

theorem claimedBefore_antisymm {a b : JobKey × JobRow} (h : claimedBefore a b)
    (h' : claimedBefore b a) : a.1 = b.1 := by
  rw [claimedBefore_iff] at h h'
  apply JobKey.texts_injective
  grind

/-- No stored job is invalid: its identity is that of its record, its fence can
be raised, and its version is one that a write has left. -/
def JobsValid (jobs : Jobs) : Prop :=
  ∀ k row, jobs.lookup k = some row →
    row.version ≠ 0 ∧ row.job.key = k ∧ 0 ≤ row.job.fence ∧ row.job.fence ≠ 2 ^ 63 - 1

/-- A row of a valid table is counted, and kept if it is due. -/
theorem scanRow_of_valid (hvalid : JobsValid jobs) {e : JobKey × JobRow}
    (he : jobs.lookup e.1 = some e.2) (now : Time) (acc : Scan) :
    scanRow now acc e = .ok ⟨acc.candidates ++ [e].filter (fun e => e.2.job.eligible now),
      some e.1, acc.count + 1⟩ := by
  obtain ⟨-, hkey, hfence, hmax⟩ := hvalid e.1 e.2 he
  have hid : ¬ (e.2.job.tenantID ≠ e.1.tenantID ∨ jobID e.2.job ≠ e.1.id ∨
      e.2.job.fence < 0 ∨ e.2.job.fence = 2 ^ 63 - 1) := by
    rw [← hkey]
    rintro (h | h | h | h)
    · exact h rfl
    · exact h rfl
    · omega
    · exact hmax h
  rw [scanRow]
  rcases hdue : e.2.job.eligible now with - | -
  · simp [hdue]
  · rw [if_neg hid]
    simp [hdue]

theorem scanLoop_of_valid (hvalid : JobsValid jobs) {l : List (JobKey × JobRow)}
    (hl : ∀ e ∈ l, jobs.lookup e.1 = some e.2) (now : Time) (acc : Scan) :
    ∃ sc, l.foldlM (scanRow now) acc = .ok sc ∧
      sc.candidates = acc.candidates ++ l.filter (fun e => e.2.job.eligible now) ∧
      sc.count = acc.count + l.length := by
  induction l generalizing acc with
  | nil => exact ⟨acc, rfl, by simp, rfl⟩
  | cons e l ih =>
    obtain ⟨he, hrest⟩ := forall_mem_cons.1 hl
    rw [foldlM_cons, scanRow_of_valid hvalid he]
    obtain ⟨sc, hsc, hc, hn⟩ := ih hrest _
    refine ⟨sc, hsc, ?_, ?_⟩
    · rw [hc, append_assoc, ← filter_append, singleton_append]
    · rw [hn, length_cons, Nat.add_right_comm]
      rfl

theorem scan_of_valid (hvalid : JobsValid jobs) (after : Option JobKey) (n : ℕ) (now : Time) :
    ∃ sc, scan jobs after n now = .ok sc ∧
      sc.candidates = (jobsAfter jobs after n).filter (fun e => e.2.job.eligible now) ∧
      sc.count = (jobsAfter jobs after n).length := by
  obtain ⟨sc, hsc, hc, hn⟩ :=
    scanLoop_of_valid hvalid (fun e he => mem_jobsAfter he) now { last := after }
  exact ⟨sc, hsc, by simpa using hc, by simpa using hn⟩

/-! ### What is claimed -/

/-- `ErrConflict`. -/
def versionConflict : StoreError := .plain "credential version or refresh fence changed"

/-- The due jobs that the scan from the cursor reads. -/
def firstReads (jobs : Jobs) (cursor : Option JobKey) (limit : ℤ) (now : Time) :
    List (JobKey × JobRow) :=
  (jobsAfter jobs cursor (scanBudget limit)).filter fun e => e.2.job.eligible now

/-- The due jobs that the scan from the beginning reads, if there is one. -/
def secondReads (jobs : Jobs) (cursor : Option JobKey) (limit : ℤ) (now : Time) :
    List (JobKey × JobRow) :=
  let n := (jobsAfter jobs cursor (scanBudget limit)).length
  if n < scanBudget limit ∧ (placed cursor).isSome then
    (jobsAfter jobs none (scanBudget limit - n)).filter fun e => e.2.job.eligible now
  else []

theorem claimCandidates_of_valid (hvalid : JobsValid jobs) (cursor : Option JobKey) (limit : ℤ)
    (now : Time) : ∃ last, claimCandidates jobs cursor limit now =
      .ok (((firstReads jobs cursor limit now ++ secondReads jobs cursor limit now).insertionSort
        claimedBefore).take limit.toNat, last) := by
  obtain ⟨first, hfirst, hc, hn⟩ := scan_of_valid hvalid cursor (scanBudget limit) now
  simp only [firstReads, secondReads, ← hc, ← hn]
  by_cases hwrap : first.count < scanBudget limit ∧ (placed cursor).isSome
  · obtain ⟨wrapped, hwrapped, hc', -⟩ :=
      scan_of_valid hvalid none (scanBudget limit - first.count) now
    rw [← hc']
    refine ⟨if 0 < wrapped.count then wrapped.last else first.last,
      Check.bind_ok.2 ⟨first, hfirst, ?_⟩⟩
    simp only [if_pos hwrap]
    exact Check.bind_ok.2 ⟨wrapped, hwrapped, rfl⟩
  · rw [if_neg hwrap, append_nil]
    refine ⟨first.last, Check.bind_ok.2 ⟨first, hfirst, ?_⟩⟩
    simp only [if_neg hwrap]
    rfl

variable {owner : String} {lease : ℤ} {claimedAt : Time} {t : Jobs}
  {done l : List (JobKey × JobRow)} {x : JobKey × JobRow} {out : List Job}

/-- A claim fails only if its record has been claimed already. -/
theorem Claimed.fails (h : Claimed jobs owner lease claimedAt done out t) (hx : jobs.lookup x.1 = some x.2)
    (hver : x.2.version ≠ 0) {e : StoreError}
    (hfails : Fails (claimEach owner lease claimedAt out x) t e) :
    x.1 ∈ done.map Prod.fst ∧ e = versionConflict := by
  simp only [claimEach, durablePut, fails_bind, fails_get, fails_ite, fails_pure,
    fails_require, fails_modify, runs_get, hver, false_and, false_or, not_false_eq_true,
    true_and, and_false, exists_const, or_false] at hfails
  obtain ⟨_, _, ⟨rfl, rfl⟩, hany, rfl⟩ := hfails
  refine ⟨?_, rfl⟩
  by_contra hnew
  rw [h.others _ hnew, hx] at hany
  simp at hany

/-- The loop fails only on a record that it has claimed already. -/
theorem claimLoop_fails (hl : ∀ e ∈ l, jobs.lookup e.1 = some e.2) (hver : ∀ e ∈ l, e.2.version ≠ 0)
    {e : StoreError} (h : Fails (l.foldlM (claimEach owner lease claimedAt) []) jobs e) :
    e = versionConflict ∧ ¬ (l.map Prod.fst).Nodup := by
  obtain ⟨done, x, out, t, hpre, hI, hx⟩ := fails_foldlM_induct _ h
    Claimed.start fun _ _ _ _ _ _ hpre h hrun => (Claimed.step hl hpre h hrun).2
  have hmem : x ∈ l := hpre.subset (by simp)
  obtain ⟨hagain, he⟩ := hI.fails (hl x hmem) (hver x hmem) hx
  refine ⟨he, fun hnodup => ?_⟩
  have hsub := hnodup.sublist (hpre.sublist.map Prod.fst)
  rw [map_append, nodup_append] at hsub
  exact hsub.2.2 _ hagain _ (by simp) rfl

/-- The jobs that `ClaimJobs` returns are distinct. -/
theorem claimJobs_distinct {out : List Job × Option JobKey}
    (h : Runs (claimJobs owner lease limit cursor now claimedAt) jobs out t) :
    (out.1.map Job.key).Nodup := by
  obtain ⟨l, hl, hdone⟩ := claimJobs_done h
  have hkeys : l.map (fun e => (e.2.job.claimed owner lease claimedAt).key) = l.map Prod.fst :=
    map_congr_left fun e he => (hl e he).2.2
  rw [hdone.answer]
  rw [map_map]
  exact hkeys ▸ hdone.once

theorem of_mem_reads {e : JobKey × JobRow}
    (h : e ∈ firstReads jobs cursor limit now ++ secondReads jobs cursor limit now) :
    jobs.lookup e.1 = some e.2 := by
  have hscan : ∀ after n, e ∈ (jobsAfter jobs after n).filter (fun e => e.2.job.eligible now) →
      jobs.lookup e.1 = some e.2 := fun after n h => mem_jobsAfter (mem_filter.1 h).1
  rcases mem_append.1 h with h | h
  · exact hscan _ _ h
  simp only [secondReads] at h
  split at h
  · exact hscan _ _ h
  · cases h

theorem nodup_reads : (firstReads jobs cursor limit now).Nodup ∧
    (secondReads jobs cursor limit now).Nodup := by
  have hscan : ∀ after n, (jobsAfter jobs after n).Nodup := fun after n =>
    ((perm_insertionSort _ _).nodup_iff.2 (Table.nodup_keys_select _ jobs).of_map).sublist
      (take_sublist _ _)
  refine ⟨(hscan _ _).filter _, ?_⟩
  simp only [secondReads]
  split
  · exact (hscan _ _).filter _
  · exact nodup_nil

/-- With its candidates, `ClaimJobs` meets a conflict as its loop over them does. -/
theorem claimJobs_conflict {last : Option JobKey} (hlimit : 1 ≤ limit)
    (hcand : claimCandidates jobs cursor limit now = .ok (l, last)) :
    Fails (claimJobs owner lease limit cursor now claimedAt) jobs versionConflict ↔
      owner ≠ "" ∧ 0 < lease ∧
        Fails (l.foldlM (claimEach owner lease claimedAt) []) jobs versionConflict := by
  have hargs : ((owner != "" && decide (0 < lease) && decide (0 < limit)) = true) ↔
      owner ≠ "" ∧ 0 < lease := by
    simp only [Bool.and_eq_true, bne_iff_ne, decide_eq_true_eq]
    exact and_iff_left (by omega)
  have hother : .plain "invalid job lease" ≠ versionConflict := by decide
  simp only [claimJobs, fails_bind, fails_require, runs_require, fails_get, runs_get,
    fails_liftE, runs_liftE, hargs]
  constructor
  · rintro (⟨-, he⟩ | ⟨_, _, ⟨⟨ho, hl⟩, rfl⟩, h⟩)
    · exact absurd he hother
    · rcases h with h | ⟨_, _, ⟨rfl, rfl⟩, h | ⟨_, _, ⟨hok, rfl⟩, h⟩⟩
      · exact h.elim
      · rw [hcand] at h
        cases h
      · rw [hcand] at hok
        cases hok
        rcases h with h | ⟨_, _, _, h⟩
        · exact ⟨ho, hl, h⟩
        · exact (fails_pure h).elim
  · rintro ⟨ho, hl, h⟩
    exact .inr ⟨(), jobs, ⟨⟨ho, hl⟩, rfl⟩, .inr ⟨_, _, ⟨rfl, rfl⟩, .inr ⟨_, _, ⟨hcand, rfl⟩, .inl h⟩⟩⟩

/-- Which candidates are cut off: the front that is claimed has no record twice
exactly if each that both scans read has enough before it. -/
theorem nodup_candidates_iff (hlimit : 1 ≤ limit) :
    ((((firstReads jobs cursor limit now ++ secondReads jobs cursor limit now).insertionSort
        claimedBefore).take limit.toNat).map Prod.fst).Nodup ↔
      ∀ e ∈ firstReads jobs cursor limit now, e ∈ secondReads jobs cursor limit now →
        limit ≤ (before claimedBefore e
          (firstReads jobs cursor limit now ++ secondReads jobs cursor limit now)).length + 1 := by
  obtain ⟨hfirst, hsecond⟩ := @nodup_reads jobs cursor limit now
  have hreads : ∀ e ∈ firstReads jobs cursor limit now ++ secondReads jobs cursor limit now,
    jobs.lookup e.1 = some e.2 := fun e => of_mem_reads
  generalize firstReads jobs cursor limit now = first at *
  generalize secondReads jobs cursor limit now = second at *
  have hperm := perm_insertionSort claimedBefore (first ++ second)
  have hsorted := pairwise_insertionSort claimedBefore (first ++ second)
  generalize (first ++ second).insertionSort claimedBefore = l at *
  have hsame : ∀ a ∈ l, ∀ b ∈ l, a.1 = b.1 → a = b := by
    intro a ha b hb heq
    have hb := hreads b (hperm.mem_iff.1 hb)
    rw [← heq, hreads a (hperm.mem_iff.1 ha)] at hb
    exact Prod.ext heq (Option.some.inj hb)
  have hkeys : ((l.take limit.toNat).map Prod.fst).Nodup ↔ (l.take limit.toNat).Nodup :=
    ⟨List.Nodup.of_map _, List.Nodup.map_on fun a ha b hb =>
      hsame a (mem_of_mem_take ha) b (mem_of_mem_take hb)⟩
  -- what the list has twice is what both scans have read
  have htwice : ∀ x, 2 ≤ l.count x ↔ x ∈ first ∧ x ∈ second := by
    intro x
    have h₁ : first.count x ≤ 1 := nodup_iff_count_le_one.1 hfirst x
    have h₂ : second.count x ≤ 1 := nodup_iff_count_le_one.1 hsecond x
    rw [hperm.count_eq, count_append, ← count_pos_iff, ← count_pos_iff]
    omega
  rw [hkeys, nodup_take_iff hsorted fun a ha b hb h h' =>
    hsame a ha b hb (claimedBefore_antisymm h h')]
  simp only [htwice, and_imp, (hperm.filter _).length_eq, before]
  exact forall_congr' fun e => forall_congr' fun _ => forall_congr' fun _ => by omega

/-- **`ClaimJobs` claims each job once** exactly if every due job that both of
its scans read has `limit - 1` other candidates before it, so that its
second reading is cut off.  The jobs it returns are distinct in any case;
otherwise it fails on a record that it has claimed itself. -/
theorem jobs_claimed_once_iff (hlimit : 1 ≤ limit) :
    ((∀ out t, Runs (claimJobs owner lease limit cursor now claimedAt) jobs out t →
        (out.1.map Job.key).Nodup) ∧
      (JobsValid jobs →
        ¬ Fails (claimJobs owner lease limit cursor now claimedAt) jobs versionConflict)) ↔
    (JobsValid jobs → owner ≠ "" → 0 < lease →
      ∀ e ∈ firstReads jobs cursor limit now, e ∈ secondReads jobs cursor limit now →
        limit ≤ (before claimedBefore e
          (firstReads jobs cursor limit now ++ secondReads jobs cursor limit now)).length + 1) := by
  rw [and_iff_right fun out t => claimJobs_distinct]
  refine forall_congr' fun hvalid => ?_
  obtain ⟨last, hcand⟩ := claimCandidates_of_valid hvalid cursor limit now
  rw [claimJobs_conflict hlimit hcand, not_and, ← nodup_candidates_iff hlimit]
  refine forall_congr' fun _ => not_and.trans (forall_congr' fun _ => ?_)
  have hl := claimCandidates_claimable hcand
  have hloop := @claimLoop_fails jobs owner lease claimedAt _ (fun e he => (hl e he).1)
    fun e he => (hvalid _ _ (hl e he).1).1
  constructor
  · intro hok
    obtain ⟨out, t, hrun⟩ := exists_runs fun e h => hok ((hloop h).1 ▸ h)
    exact (Claimed.run (fun e he => (hl e he).1) hrun).once
  · exact fun hnodup h => (hloop h).2 hnodup

/-- A due job. -/
def dueJob : Job :=
  { tenantID := "t", connectionID := "c", accountID := "a", resourceID := "r2", status := "queued" }

def dueJobs : Jobs := AList.singleton dueJob.key ⟨1, dueJob⟩

theorem dueJobs_valid : JobsValid dueJobs := by
  intro k row h
  obtain rfl : k = dueJob.key := mem_singleton.1
    (AList.mem_keys.1 (AList.lookup_isSome.1 (Option.isSome_of_eq_some h)))
  cases h
  decide

/-- Without a cursor there is no second scan. -/
theorem dueJob_claimed_once :
    ¬ Fails (claimJobs "worker" 1 2 none ⟨0⟩ ⟨0⟩) dueJobs versionConflict :=
  ((jobs_claimed_once_iff (by decide)).2 fun _ _ _ => by decide).2 dueJobs_valid

/-- A cursor left before the only job: both scans read it, and the second claim
of it is refused. -/
theorem dueJob_claimed_twice : JobsValid dueJobs ∧
    Fails (claimJobs "worker" 1 2 (some ⟨"t", durableKey ["t", "c", "a", "r1"]⟩) ⟨0⟩ ⟨0⟩) dueJobs
      versionConflict :=
  ⟨dueJobs_valid, rfl⟩

end Hoorific
