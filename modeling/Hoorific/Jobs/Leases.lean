/-
The lease of a job along whole histories of the calls of `LeaseSteps`, in
any order.  Everything is read off `LeaseChange`: a job keeps its identity
and its fence only grows, a claim finds no running lease, an update comes
from the owner of the last claim, and between updates under two leases a
claim has found the first one over (`JobLeases`).

That the readings of `ClaimJobAction` stay sound needs the clocks: a reading
is used no earlier than it was taken.

The fence of the source is an `int64`, and only `ClaimJobs` checks it before
it adds one.  It is never above the number of calls that were made
(`JobLeases.bounded`), so it does not wrap in a run of fewer than `2 ^ 63`.
-/
import Hoorific.Lib.History
import Hoorific.Jobs.LeaseSteps

namespace Hoorific

open List

/-! ### Histories -/

abbrev LeaseEvent := Event LeaseSystem LeaseOp LeaseAnswer

/-- The clocks agree and never go back: over the whole run, no reading is
below an earlier one. -/
def Clocked (ops : List LeaseOp) : Prop := (ops.flatMap LeaseOp.times).Pairwise (· ≤ ·)

/-- The readings of the state were taken at calls of the history. -/
def ReadBefore (h : List LeaseEvent) (s : LeaseSystem) : Prop :=
  ∀ r ∈ s.readings, ∃ e ∈ h, r.readAt.nanos ∈ e.input.times

variable {op : LeaseOp} {s : LeaseSystem} {answer : LeaseAnswer} {k : JobKey} {row : JobRow}
  {new : Option JobRow} {h : List LeaseEvent} {ops : List LeaseOp} {e x : LeaseEvent} {j : Job}
  {owner : String} {fence : ℤ}

theorem Clocked.of_append {l₁ l₂ : List LeaseOp} (hclock : Clocked (l₁ ++ l₂)) : Clocked l₁ := by
  rw [Clocked, flatMap_append] at hclock
  exact (pairwise_append.1 hclock).1

theorem Clocked.timely {l₁ l₂ : List LeaseOp} (hclock : Clocked (l₁ ++ op :: l₂))
    (hread : ReadBefore (history leaseStep {} l₁) s) :
    Timely s op := by
  rw [Clocked, flatMap_append, flatMap_cons, pairwise_append, pairwise_append] at hclock
  obtain ⟨-, ⟨hordered, -, -⟩, hcross⟩ := hclock
  refine ⟨hordered, fun r hr t ht => ?_⟩
  obtain ⟨e, he, htime⟩ := hread r hr
  have hinputs : (history leaseStep {} l₁).map Event.input = l₁ := history_inputs
  have hop : e.input ∈ l₁ := hinputs ▸ mem_map_of_mem he
  exact hcross _ (mem_flatMap.2 ⟨e.input, hop, htime⟩) t (mem_append_left _ ht)

/-- A record never disappears, and its version tells whether it was written. -/
theorem LeaseChange.version (h : LeaseChange op answer k (some row) new) :
    ∃ row', new = some row' ∧ (row' = row ∨ row'.version = row.version + 1) := by
  cases h with
  | keep => exact ⟨row, rfl, .inl rfl⟩
  | claim | update => exact ⟨_, rfl, .inr rfl⟩

/-- A reading of the state was there before the call, or is the call's own. -/
theorem mem_readings_step {r : ActionReading} (h : r ∈ (leaseStep s op).2.readings) :
    r ∈ s.readings ∨ ∃ tenantID subjectID id expected now,
      op = .read tenantID subjectID id expected now ∧
      readJobAction s.jobs tenantID subjectID id expected now = .ok r ∧
      (leaseStep s op).2.jobs = s.jobs := by
  cases op with
  | read tenantID subjectID id expected now =>
    rcases hc : readJobAction s.jobs tenantID subjectID id expected now with e | r'
    · simp only [leaseStep, hc] at h
      exact .inl h
    simp only [leaseStep, hc] at h ⊢
    rcases mem_append.1 h with h | h
    · exact .inl h
    · obtain rfl := mem_singleton.1 h
      exact .inr ⟨_, _, _, _, _, rfl, hc, trivial⟩
  | _ =>
    -- no other call touches the readings
    left
    simp only [leaseStep] at h
    split at h <;> first | exact h | (split at h <;> exact h)

/-- Every call keeps the records under their keys and the readings sound. -/
theorem LeaseInv.step (hinv : LeaseInv s) (htime : Timely s op) : LeaseInv (leaseStep s op).2 := by
  have hchange := (leaseStep_spec hinv htime).change
  have hkeyed : Keyed (leaseStep s op).2.jobs := by
    intro k row hrow
    have hk := hchange k
    rw [hrow] at hk
    generalize hold : s.jobs.lookup k = old at hk
    generalize (leaseStep s op).1 = answer at hk
    cases hk with
    | keep => exact hinv.keyed k row hold
    | put => rfl
    | claim _ hkey => exact hkey
    | update => rfl
  -- an old reading: its record has moved on, or is as it was
  have hreads : ∀ r ∈ s.readings, Reads (leaseStep s op).2.jobs r := by
    intro r hr
    obtain ⟨⟨row, hrow, hcase⟩, hfree⟩ := hinv.reads r hr
    have hk := hchange r.key
    rw [hrow] at hk
    obtain ⟨row', hrow', hver⟩ := hk.version
    refine ⟨⟨row', hrow', ?_⟩, hfree⟩
    rcases hver with rfl | hver
    · exact hcase
    left
    rcases hcase with hlt | rfl
    · omega
    show r.expected < row'.version
    rw [hver]
    exact Int.lt_succ _
  refine ⟨hkeyed, fun r hr => ?_⟩
  rcases mem_readings_step hr with hr | ⟨_, _, _, _, now, rfl, hread, hjobs⟩
  · exact hreads r hr
  obtain ⟨hrow, hat, hfree⟩ := readJobAction_ok hinv.keyed hread
  rw [hjobs]
  exact ⟨⟨_, hrow, .inr rfl⟩, by rw [hat]; exact hfree⟩

/-- A call adds readings taken at its own time only. -/
theorem ReadBefore.step (hinv : LeaseInv s) (hread : ReadBefore h s) :
    ReadBefore (h ++ [event leaseStep s op]) (leaseStep s op).2 := by
  intro r hr
  rcases mem_readings_step hr with hr | ⟨_, _, _, _, now, rfl, hnew, -⟩
  · obtain ⟨e, he, ht⟩ := hread r hr
    exact ⟨e, mem_append_left _ he, ht⟩
  refine ⟨_, mem_append_right _ (mem_singleton_self _), ?_⟩
  rw [(readJobAction_ok hinv.keyed hnew).2.1]
  exact mem_singleton_self _

/-- The invariant holds in every state of a run whose clocks never go back. -/
theorem leaseInv_of_history (hclock : Clocked ops) :
    LeaseInv (final leaseStep {} ops) ∧
      ReadBefore (history leaseStep {} ops) (final leaseStep {} ops) := by
  refine history_induct (P := fun h s => LeaseInv s ∧ ReadBefore h s) ?_ ops ?_
  · exact ⟨⟨fun _ _ h => (by cases h), fun _ h => absurd h not_mem_nil⟩,
      fun _ h => absurd h not_mem_nil⟩
  · rintro l₁ op l₂ rfl ⟨hinv, hread⟩
    exact ⟨hinv.step (hclock.timely hread), hread.step hinv⟩

/-- The state before an event is sound, and the event is timely. -/
theorem sound_of_split (hclock : Clocked ops) {h₁ h₂ : List LeaseEvent}
    (h : history leaseStep {} ops = h₁ ++ e :: h₂) :
    LeaseInv e.before ∧ Timely e.before e.input := by
  obtain ⟨l₁, l₂, rfl, rfl, hbefore, -⟩ := history_split h
  obtain ⟨hinv, hread⟩ := leaseInv_of_history hclock.of_append
  rw [hbefore]
  exact ⟨hinv, hclock.timely hread⟩

/-- An event of a run: a step, from a sound state. -/
structure LeaseEvent.Sound (e : LeaseEvent) : Prop where
  step : e = event leaseStep e.before e.input
  inv : LeaseInv e.before
  timely : Timely e.before e.input

theorem sound_of_mem (hclock : Clocked ops) (he : e ∈ history leaseStep {} ops) :
    LeaseEvent.Sound e := by
  obtain ⟨h₁, h₂, h⟩ := append_of_mem he
  obtain ⟨hinv, htime⟩ := sound_of_split hclock h
  exact ⟨eq_event_of_mem he, hinv, htime⟩

theorem LeaseEvent.Sound.spec (he : e.Sound) :
    LeaseSpec e.input e.answer e.before.jobs e.after.jobs := by
  rw [he.step]
  exact leaseStep_spec he.inv he.timely

/-! ### Claims and updates -/

/-- The event is a claim of the job: its owner is given `c`. -/
def ClaimsJob (k : JobKey) (c : Job) (e : LeaseEvent) : Prop :=
  ∃ out, e.answer = .claimed out ∧ c ∈ out ∧ c.key = k

/-- The event is a successful `UpdateJob(j, owner, fence)` at `now`. -/
def UpdatesJob (j : Job) (owner : String) (fence : ℤ) (now : Time) (e : LeaseEvent) : Prop :=
  ∃ postgres, e.input = .update postgres j owner fence now ∧ e.answer = .updated

/-- What a claim finds and leaves. -/
theorem ClaimsJob.spec {c : Job} (he : e.Sound) (h : ClaimsJob k c e) :
    ∃ row, e.before.jobs.lookup k = some row ∧ c.fence = row.job.fence + 1 ∧
      (∀ t ∈ e.input.times, ¬ row.job.leasedAt t) ∧
      e.after.jobs.lookup k = some ⟨row.version + 1, c⟩ := by
  obtain ⟨out, hanswer, hc, rfl⟩ := h
  obtain ⟨row, h⟩ := he.spec.claimed out hanswer c hc
  refine ⟨row, h.found, h.fence, ?_, h.stored⟩
  rintro t ht ⟨howner, hlt⟩
  rcases h.free with hnone | hexpired
  · exact howner hnone
  · exact absurd (hexpired t ht) (not_le_of_gt hlt)

/-- What an update finds and leaves. -/
theorem UpdatesJob.spec {now : Time} (he : e.Sound) (h : UpdatesJob j owner fence now e) :
    ∃ row, e.before.jobs.lookup j.key = some row ∧ owner ≠ "" ∧ row.job.leaseOwner = owner ∧
      row.job.fence = fence ∧ now.nanos < row.job.leaseUntil.nanos ∧
      e.after.jobs.lookup j.key =
        some ⟨row.version + 1, { j with fence := fence, updatedAt := now }⟩ ∧
      (j.leaseOwner = "" ∨ j.leaseOwner = owner) := by
  obtain ⟨postgres, hin, hanswer⟩ := h
  have hstep := step_of_event he.step hin
  rw [hanswer, leaseStep] at hstep
  rcases hc : Tx.commit (updateJob postgres j owner fence now) e.before.jobs with ⟨err | u, jobs'⟩
  all_goals
    rw [hc] at hstep
    injection hstep with hdone hafter
  · cases hdone
  · obtain ⟨row, hrow, hne, howner, hfence, hexpiry, -, hkept, rfl⟩ :=
      updateJob_holder (Tx.commit_ok_iff.1 hc)
    refine ⟨row, hrow, hne, howner, hfence, ?_, ?_, ?_⟩
    · -- SQLite's clock is read a millisecond late
      have hlate : now.nanos ≤ (expiryClock postgres now).nanos := by
        unfold expiryClock
        split
        · exact le_refl _
        · show now.nanos ≤ now.nanos + 1000000
          omega
      exact hlate.trans_lt hexpiry
    · rw [← hafter, AList.lookup_insert]
    · simp only [leaseKept, Bool.or_eq_true, Bool.and_eq_true, beq_iff_eq] at hkept
      exact hkept.imp (fun h => h.1) fun h => h.1.trans howner

/-- The lease of a record is that of the last claim of the job, or none. -/
def LeaseOrigin (h : List LeaseEvent) (k : JobKey) (j : Job) : Prop :=
  j.leaseOwner = "" ∨ ∃ h₁ e h₂ c, h = h₁ ++ e :: h₂ ∧ ClaimsJob k c e ∧
    c.leaseOwner = j.leaseOwner ∧ c.fence = j.fence ∧ c.leaseUntil = j.leaseUntil ∧
    ∀ x ∈ h₂, ∀ c', ¬ ClaimsJob k c' x

/-- An event that is no claim keeps the origin of a lease. -/
theorem LeaseOrigin.snoc {j' : Job} (ho : LeaseOrigin h k j) (hx : ∀ c, ¬ ClaimsJob k c x)
    (hsame : j'.leaseOwner = "" ∨
      j'.leaseOwner = j.leaseOwner ∧ j'.fence = j.fence ∧ j'.leaseUntil = j.leaseUntil) :
    LeaseOrigin (h ++ [x]) k j' := by
  rcases hsame with hnone | ⟨howner, hfence, huntil⟩
  · exact .inl hnone
  rcases ho with hnone | ⟨h₁, e, h₂, c, rfl, hclaim, hco, hcf, hcu, hlast⟩
  · exact .inl (howner.trans hnone)
  refine .inr ⟨h₁, e, h₂ ++ [x], c, by rw [append_assoc, cons_append], hclaim,
    hco.trans howner.symm, hcf.trans hfence.symm, hcu.trans huntil.symm, ?_⟩
  exact forall_mem_append.2 ⟨hlast, forall_mem_singleton.2 hx⟩

theorem LeaseOrigin.step (hx : x.Sound)
    (hinv : ∀ k row, x.before.jobs.lookup k = some row → LeaseOrigin h k row.job) (k : JobKey)
    (row : JobRow) (hrow : x.after.jobs.lookup k = some row) :
    LeaseOrigin (h ++ [x]) k row.job := by
  have hchange := hx.spec.change k
  rw [hrow] at hchange
  generalize hold : x.before.jobs.lookup k = old at hchange
  generalize hanswer : x.answer = answer at hchange
  generalize x.input = op at hchange
  generalize hnew : some row = new at hchange
  cases hchange with
  | keep =>
    subst hnew
    refine (hinv k row hold).snoc (fun c hclaim => ?_) (.inr ⟨rfl, rfl, rfl⟩)
    -- a claim would have moved the version
    obtain ⟨row', hrow', -, -, hafter⟩ := hclaim.spec hx
    cases hold.symm.trans hrow'
    have hver := congrArg JobRow.version (Option.some.inj (hrow.symm.trans hafter))
    simp only at hver
    omega
  | @put j =>
    cases hnew
    exact .inl j.2.1
  | @claim _ _ _ out c hin hkey =>
    cases hnew
    exact .inr ⟨h, x, [], c, rfl, ⟨out, hanswer, hin, hkey⟩, rfl, rfl, rfl,
      fun _ hy => absurd hy not_mem_nil⟩
  | @update _ j _ _ _ old hne howner hfence _ _ hkept =>
    cases hnew
    refine (hinv _ _ hold).snoc (fun c hclaim => ?_) ?_
    · obtain ⟨_, hclaimed, -⟩ := hclaim
      cases hanswer.symm.trans hclaimed
    · simp only [leaseKept, Bool.or_eq_true, Bool.and_eq_true, beq_iff_eq] at hkept
      exact hkept.imp (fun h => h.1) fun h => ⟨h.1, hfence.symm, h.2⟩

/-- Every lease of every state comes from the last claim of its job. -/
theorem leaseOrigin_of_history (hclock : Clocked ops) :
    ∀ k row, (final leaseStep {} ops).jobs.lookup k = some row →
      LeaseOrigin (history leaseStep {} ops) k row.job := by
  refine history_induct (P := fun h s => ∀ k row, s.jobs.lookup k = some row →
    LeaseOrigin h k row.job) ?_ ops ?_
  · intro k row h
    cases h
  rintro l₁ op l₂ rfl hinv
  exact LeaseOrigin.step (sound_of_mem hclock event_mem) hinv

/-! ### The protocol -/

/-- No fence is above `n`. -/
def FencesWithin (n : ℕ) (s : LeaseSystem) : Prop :=
  ∀ k row, s.jobs.lookup k = some row → 0 ≤ row.job.fence ∧ row.job.fence ≤ n

/-- **The lease protocol**, as a property of histories. -/
structure JobLeases (h : List LeaseEvent) : Prop where
  /-- a stored job keeps its identity, and its fence never decreases -/
  kept : ∀ e ∈ h, ∀ k row, e.before.jobs.lookup k = some row →
    ∃ row', e.after.jobs.lookup k = some row' ∧ row.job.fence ≤ row'.job.fence ∧
      sameJob row.job row'.job = true
  /-- the fence of a job is within the number of calls -/
  bounded : ∀ e ∈ h, FencesWithin h.length e.after
  /-- a claim finds no running lease and stores a greater fence -/
  claims : ∀ e ∈ h, ∀ k c, ClaimsJob k c e → ∃ row row',
    e.before.jobs.lookup k = some row ∧ e.after.jobs.lookup k = some row' ∧ row'.job = c ∧
      row.job.fence < c.fence ∧ ∀ t ∈ e.input.times, ¬ row.job.leasedAt t
  /-- an update comes from the owner of the last claim, before its lease has expired -/
  updates : ∀ h₀ e h' j owner fence now, h = h₀ ++ e :: h' → UpdatesJob j owner fence now e →
    ∃ h₁ x h₂ c, h₀ = h₁ ++ x :: h₂ ∧ ClaimsJob j.key c x ∧ c.leaseOwner = owner ∧
      c.fence = fence ∧ now.nanos < c.leaseUntil.nanos ∧ ∀ y ∈ h₂, ∀ c', ¬ ClaimsJob j.key c' y
  /-- between updates under two leases of a job, a claim found the first lease over -/
  exclusive : ∀ h₁ e₁ h₂ e₂ h₃ j₁ owner₁ fence₁ now₁ j₂ owner₂ fence₂ now₂,
    h = h₁ ++ e₁ :: (h₂ ++ e₂ :: h₃) → UpdatesJob j₁ owner₁ fence₁ now₁ e₁ →
    UpdatesJob j₂ owner₂ fence₂ now₂ e₂ → j₁.key = j₂.key →
    (owner₁ ≠ owner₂ ∨ fence₁ ≠ fence₂) →
    ∃ x ∈ h₂, ∃ c row, ClaimsJob j₁.key c x ∧ x.before.jobs.lookup j₁.key = some row ∧
      row.job.fence = fence₁ ∧ (row.job.leaseOwner = owner₁ ∨ row.job.leaseOwner = "") ∧
      ∀ t ∈ x.input.times, ¬ row.job.leasedAt t

theorem LeaseChange.kept (h : LeaseChange op answer k (some row) new) :
    ∃ row', new = some row' ∧ row.job.fence ≤ row'.job.fence ∧
      sameJob row.job row'.job = true := by
  cases h with
  | keep => exact ⟨row, rfl, le_refl _, sameJob_refl _⟩
  | claim _ _ hfence hsame => exact ⟨_, rfl, hfence ▸ (Int.lt_succ _).le, hsame⟩
  | update _ _ hfence _ hsame => exact ⟨_, rfl, hfence.le, hsame⟩

/-- A fence is zero at first, and a call adds at most one. -/
theorem LeaseChange.fence_le {old : Option JobRow} {n : ℤ} (h : LeaseChange op answer k old (some row))
    (hn : 0 ≤ n) (hold : ∀ row, old = some row → 0 ≤ row.job.fence ∧ row.job.fence ≤ n) :
    0 ≤ row.job.fence ∧ row.job.fence ≤ n + 1 := by
  cases h with
  | keep =>
    have := hold row rfl
    omega
  | @put j =>
    rw [j.2.2]
    omega
  | claim _ _ hfence | update _ _ hfence =>
    have := hold _ rfl
    simp only
    omega

theorem fencesWithin_length (hclock : Clocked ops) :
    (∀ e ∈ history leaseStep {} ops, FencesWithin (history leaseStep {} ops).length e.after) ∧
      FencesWithin (history leaseStep {} ops).length (final leaseStep {} ops) := by
  refine history_induct (P := fun h s => (∀ e ∈ h, FencesWithin h.length e.after) ∧
    FencesWithin h.length s) ⟨fun _ h => absurd h not_mem_nil, fun _ _ h => (by cases h)⟩ ops ?_
  rintro l₁ op l₂ rfl ⟨hevents, hstate⟩
  rw [length_append, length_singleton]
  have hnew : FencesWithin ((history leaseStep {} l₁).length + 1)
      (leaseStep (final leaseStep {} l₁) op).2 := by
    intro k row hrow
    have hchange := (sound_of_mem hclock event_mem).spec.change k
    rw [show (event leaseStep (final leaseStep {} l₁) op).after.jobs.lookup k = some row
      from hrow] at hchange
    exact hchange.fence_le (Int.natCast_nonneg _) (hstate k)
  refine ⟨forall_mem_append.2 ⟨fun e he k row hrow => ?_, forall_mem_singleton.2 hnew⟩, hnew⟩
  exact (hevents e he k row hrow).imp_right fun hle => hle.trans (Int.lt_succ _).le

/-- The job is under this lease, or the lease has been released. -/
def UnderLease (k : JobKey) (owner : String) (fence : ℤ) (s : LeaseSystem) : Prop :=
  ∃ row, s.jobs.lookup k = some row ∧ row.job.fence = fence ∧
    (row.job.leaseOwner = owner ∨ row.job.leaseOwner = "")

/-- A lease ends with a claim that found it over. -/
theorem claim_of_drop (hx : x.Sound) (hbefore : UnderLease k owner fence x.before)
    (hafter : ¬ UnderLease k owner fence x.after) :
    ∃ c row, ClaimsJob k c x ∧ x.before.jobs.lookup k = some row ∧ row.job.fence = fence ∧
      (row.job.leaseOwner = owner ∨ row.job.leaseOwner = "") ∧
      ∀ t ∈ x.input.times, ¬ row.job.leasedAt t := by
  obtain ⟨row, hrow, hfence, howner⟩ := hbefore
  have hchange := hx.spec.change k
  rw [hrow] at hchange
  generalize hnew : x.after.jobs.lookup k = new at hchange
  generalize hanswer : x.answer = answer at hchange
  generalize hin : x.input = op at hchange
  cases hchange with
  | keep => exact absurd ⟨row, hnew, hfence, howner⟩ hafter
  | @claim _ _ _ out c hmem hkey =>
    have hclaim : ClaimsJob k c x := ⟨out, hanswer, hmem, hkey⟩
    obtain ⟨row', hrow', -, hfree, -⟩ := hclaim.spec hx
    cases hrow.symm.trans hrow'
    exact ⟨c, row, hclaim, hrow, hfence, howner, hin ▸ hfree⟩
  | update hne hholder hf _ _ hkept =>
    -- an update leaves the owner or clears it
    refine absurd ⟨_, hnew, hf.symm.trans hfence, ?_⟩ hafter
    simp only [leaseKept, Bool.or_eq_true, Bool.and_eq_true, beq_iff_eq] at hkept
    rcases hkept with ⟨hnone, -⟩ | ⟨hsame, -⟩
    · exact .inr hnone
    rcases howner with h | h
    · exact .inl (hsame.trans h)
    · exact absurd (hholder.symm.trans h) hne

/-- **Leases exclude each other.**  In every run of `PutJob`, `ClaimJobs`,
`ClaimJobAction` and `UpdateJob` whose clocks agree and never go back. -/
theorem job_leases (ops : List LeaseOp) (hclock : Clocked ops) :
    JobLeases (history leaseStep {} ops) where
  kept e he k row hrow := by
    have hchange := (sound_of_mem hclock he).spec.change k
    rw [hrow] at hchange
    exact hchange.kept
  bounded := (fencesWithin_length hclock).1
  claims e he k c hclaim := by
    obtain ⟨row, hrow, hfence, hfree, hafter⟩ := hclaim.spec (sound_of_mem hclock he)
    exact ⟨row, _, hrow, hafter, rfl, by omega, hfree⟩
  updates h₀ e h' j owner fence now h hupdate := by
    have hsound : e.Sound := sound_of_mem hclock (h ▸ mem_append_right h₀ mem_cons_self)
    obtain ⟨row, hrow, hne, howner, hfence, hexpiry, -, -⟩ := hupdate.spec hsound
    obtain ⟨l₁, l₂, rfl, rfl, hbefore, -⟩ := history_split h
    rw [hbefore] at hrow
    rcases leaseOrigin_of_history hclock.of_append j.key row hrow with hnone | horigin
    · exact absurd (howner.symm.trans hnone) hne
    · obtain ⟨h₁, x, h₂, c, hh, hclaim, hco, hcf, hcu, hlast⟩ := horigin
      exact ⟨h₁, x, h₂, c, hh, hclaim, hco.trans howner, hcf.trans hfence, hcu ▸ hexpiry, hlast⟩
  exclusive h₁ e₁ h₂ e₂ h₃ j₁ owner₁ fence₁ now₁ j₂ owner₂ fence₂ now₂ h hfirst hsecond hkey hne := by
    have hsound : ∀ e ∈ e₁ :: (h₂ ++ e₂ :: h₃), e.Sound := fun e he =>
      sound_of_mem hclock (h ▸ mem_append_right h₁ he)
    obtain ⟨_, -, -, -, -, -, hafter₁, hkept₁⟩ := hfirst.spec (hsound e₁ mem_cons_self)
    obtain ⟨row₂, hrow₂, hne₂, howner₂, hfence₂, -⟩ := hsecond.spec (hsound e₂ (by simp))
    obtain ⟨_, l₂, -, -, -, hrest⟩ := history_split h
    obtain ⟨m₁, _, -, rfl, hbefore₂, -⟩ := history_split hrest.symm
    have hstart : UnderLease j₁.key owner₁ fence₁ e₁.after := ⟨_, hafter₁, rfl, hkept₁.symm⟩
    have hend : ¬ UnderLease j₁.key owner₁ fence₁ (final leaseStep e₁.after m₁) := by
      rintro ⟨row, hrow, hf, ho⟩
      rw [← hbefore₂, hkey] at hrow
      cases hrow₂.symm.trans hrow
      -- the second update found its own lease
      rcases hne with hne | hne
      · rcases ho with ho | ho
        · exact hne (ho.symm.trans howner₂)
        · exact hne₂ (howner₂.symm.trans ho)
      · exact hne (hf.symm.trans hfence₂)
    obtain ⟨x, hx, hbefore, hdrop⟩ := exists_drop hstart hend
    exact ⟨x, hx, claim_of_drop (hsound x (by simp [hx])) hbefore hdrop⟩

/-! ### A run -/

def leasedJob : NewJob :=
  ⟨{ tenantID := "acme", connectionID := "conn", accountID := "acct", resourceID := "batch-1",
     status := "pending" }, rfl, rfl⟩

/-- A worker claims a job and its lease runs out; another claims it and updates it. -/
def leaseOps : List LeaseOp :=
  [.put leasedJob, .claim "worker-1" 10 1 none ⟨100⟩ ⟨100⟩, .claim "worker-2" 10 1 none ⟨120⟩ ⟨120⟩,
    .update true { leasedJob.1.claimed "worker-2" 10 ⟨120⟩ with fence := 2 } "worker-2" 2 ⟨125⟩,
    .update true { leasedJob.1.claimed "worker-1" 10 ⟨100⟩ with fence := 1 } "worker-1" 1 ⟨126⟩]

/-- Whether a call succeeded. -/
def LeaseAnswer.succeeded : LeaseAnswer → Bool
  | .failed => false
  | _ => true

/-- The late update of the first worker is refused. -/
theorem job_leases_handover :
    ((history leaseStep {} leaseOps).map fun e => e.answer.succeeded) =
      [true, true, true, true, false] ∧ JobLeases (history leaseStep {} leaseOps) := by
  refine ⟨by decide +kernel, job_leases leaseOps ?_⟩
  show (leaseOps.flatMap LeaseOp.times).Pairwise (· ≤ ·)
  decide

end Hoorific
