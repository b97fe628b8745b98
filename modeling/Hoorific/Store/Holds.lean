/-
Counters and holds.  `Store.reserved` reads the counter rows as a vector
over all keys, `AttemptEnvelope.holds` is the vector of what one attempt
holds.  The statements of admission and settlement are described by their
effect on these two vectors and by what they leave alone:

* `PolicyOnly s s'`   -- only the policy tables changed, no counter moved;
* `CountersOnly s s'` -- only counter rows changed.

`adjustHoldMode_runs` is the fact all settlement rests on: a moved hold
moves the counters by exactly the same vector.
-/
import Mathlib.Algebra.Group.Pi.Lemmas
import Mathlib.Tactic.Abel
import Hoorific.Store.Admission

namespace Hoorific

open List Tx

/-! ### Counters and holds as vectors -/

/-- The counter rows as a vector; a missing row counts zero. -/
def Store.reserved (s : Store) : AllowanceKey → ℤ := fun k =>
  ((s.allowances.lookup k).map AllowanceRow.reserved).getD 0

/-- What one hold contributes to the vector of its attempt. -/
def heldAt (tenantID : String) (a : Allowance) (h : ℤ) : AllowanceKey → ℤ :=
  Pi.single (a.key tenantID) h

/-- What an attempt holds, as a vector: for each key, the sum of `held` over
the indices whose allowance has that key. -/
def AttemptEnvelope.holds (env : AttemptEnvelope) : AllowanceKey → ℤ :=
  (List.zipWith (heldAt env.plan.tenantID) env.plan.allowances env.held).sum

theorem Store.reserved_insert (s : Store) (k : AllowanceKey) (row : AllowanceRow) :
    Store.reserved { s with allowances := s.allowances.insert k row } =
      Function.update s.reserved k row.reserved := by
  funext k'
  by_cases hk : k' = k
  · subst hk
    simp [Store.reserved]
  · simp [Store.reserved, hk, AList.lookup_insert_ne]

/-- Replacing one hold changes the sum of the holds by the difference. -/
theorem sum_zipWith_set (t : String) {as : List Allowance} {hs : List ℤ} {i : ℕ} {a : Allowance}
    {h : ℤ} (h' : ℤ) (ha : as[i]? = some a) (hh : hs[i]? = some h) :
    (List.zipWith (heldAt t) as (hs.set i h')).sum =
      (List.zipWith (heldAt t) as hs).sum + Pi.single (a.key t) (h' - h) := by
  induction as generalizing hs i with
  | nil => simp at ha
  | cons b as ih =>
    rcases hs with - | ⟨g, hs⟩
    · simp at hh
    rcases i with - | i
    · cases ha
      cases hh
      simp only [set_cons_zero, zipWith_cons_cons, sum_cons, heldAt, Pi.single_sub]
      abel
    · simp only [set_cons_succ, zipWith_cons_cons, sum_cons, ih ha hh]
      abel

@[simp] theorem withHeld_held (env : AttemptEnvelope) (hs : List ℤ) :
    (env.withHeld hs).held = hs := rfl

/-! ### What only touches the policy tables -/

/-- Only the policy tables changed: limits and windows may differ, counters
were opened at zero at most. -/
structure PolicyOnly (s s' : Store) : Prop where
  frame : s' = { s with policyLimits := s'.policyLimits, quotaWindows := s'.quotaWindows,
                        allowances := s'.allowances }
  reserved : s'.reserved = s.reserved
  rows : ∀ k, (s.allowances.lookup k).isSome → (s'.allowances.lookup k).isSome

theorem PolicyOnly.refl (s : Store) : PolicyOnly s s := ⟨rfl, rfl, fun _ h => h⟩

variable {s₁ s₂ s₃ s s' : Store} {now d h : ℤ} {u : Unit} {p : AttemptPlan} {k : AllowanceKey}
  {guard : ℤ → Bool} {e : StoreError} {seen : Bool} {held : List ℤ} {a : Allowance}
  {env env' : AttemptEnvelope} {i : ℕ}

theorem PolicyOnly.trans (h₁ : PolicyOnly s₁ s₂) (h₂ : PolicyOnly s₂ s₃) : PolicyOnly s₁ s₃ where
  frame := by
    rw [h₂.frame, h₁.frame]
  reserved := h₂.reserved.trans h₁.reserved
  rows := fun k h => h₂.rows k (h₁.rows k h)

theorem PolicyOnly.attempts (h : PolicyOnly s s') : s'.attempts = s.attempts := by
  rw [h.frame]

theorem PolicyOnly.usageLedger (h : PolicyOnly s s') : s'.usageLedger = s.usageLedger := by
  rw [h.frame]

theorem policyOnly_putWindow (s : Store) (t : String) (id : WindowID) (b : ℤ × ℤ) :
    PolicyOnly s (s.putWindow t id b) := ⟨rfl, rfl, fun _ h => h⟩

theorem policyOnly_putPolicyLimit (s : Store) (k : AllowanceKey) (m r : ℤ) :
    PolicyOnly s (s.putPolicyLimit k m r) := ⟨rfl, rfl, fun _ h => h⟩

theorem policyOnly_addPolicyLimit (s : Store) (k : AllowanceKey) (m r : ℤ) :
    PolicyOnly s (s.addPolicyLimit k m r) := by
  unfold Store.addPolicyLimit
  split
  · exact ⟨rfl, rfl, fun _ h => h⟩
  · exact PolicyOnly.refl s

theorem policyOnly_openAllowance (s : Store) (k : AllowanceKey) :
    PolicyOnly s (s.openAllowance k) := by
  unfold Store.openAllowance
  split
  next hnone =>
    refine ⟨rfl, ?_, ?_⟩
    · rw [Store.reserved_insert]
      funext k'
      by_cases hk : k' = k
      · subst hk
        simp [Store.reserved, hnone]
      · simp [hk]
    · intro k' hk'
      by_cases hk : k' = k
      · subst hk
        simp
      · simpa [AList.lookup_insert_ne hk] using hk'
  next => exact PolicyOnly.refl s

theorem policyOnly_rollWindow (s : Store) (k : AllowanceKey) (row : PolicyLimitRow) (now : ℤ) :
    PolicyOnly s (s.rollWindow k row now) :=
  ((policyOnly_putWindow s _ _ _).trans (policyOnly_addPolicyLimit _ _ _ _)).trans
    (policyOnly_openAllowance _ _)

theorem openAllowance_policyLimits (s : Store) (k : AllowanceKey) :
    (s.openAllowance k).policyLimits = s.policyLimits := by
  unfold Store.openAllowance
  split <;> rfl

/-- Rolling a window adds a row for the current one, if there is none. -/
theorem lookup_rollWindow (s : Store) (k k' : AllowanceKey) (row : PolicyLimitRow) (now : ℤ) :
    (s.rollWindow k row now).policyLimits.lookup k' = (s.policyLimits.lookup k' <|>
      if k' = k.rolled now then some ⟨row.maximum, row.reserve, 1⟩ else none) := by
  rw [Store.rollWindow, openAllowance_policyLimits, Store.addPolicyLimit]
  split
  next hnone =>
    change s.policyLimits.lookup _ = none at hnone
    by_cases hk : k' = k.rolled now
    · subst hk
      rw [hnone, if_pos rfl]
      exact AList.lookup_insert _
    · rw [if_neg hk, Option.orElse_eq_orElse]
      exact (AList.lookup_insert_ne hk).trans (by simp [Store.putWindow])
  next hsome =>
    change s.policyLimits.lookup _ = some _ at hsome
    by_cases hk : k' = k.rolled now
    · subst hk
      simp [hsome, Store.putWindow]
    · simp [hk, Store.putWindow]

theorem policyOnly_syncDimension (t : String) (limit : PolicyLimitData) (now : ℤ) (s : Store)
    (d : Dimension) : PolicyOnly s (syncDimension t limit now s d) := by
  unfold syncDimension
  split
  · exact PolicyOnly.refl s
  refine PolicyOnly.trans ?_ (policyOnly_openAllowance _ _)
  refine PolicyOnly.trans ?_ (policyOnly_putPolicyLimit _ _ _ _)
  split
  · exact PolicyOnly.refl s
  · exact policyOnly_putWindow s _ _ _

/-- The rows of the old scope are gone. -/
def Store.unsynced (s : Store) (tenant id : String) : Store :=
  match s.datum tenant .policyLimits id with
  | none => s
  | some old =>
    if PolicyLimitData.scope old = .other "" then s
    else s.deleteScope tenant (PolicyLimitData.scope old) (PolicyLimitData.scopeID old)

/-- The rows of the old scope are gone and the new dimensions are written. -/
def Store.synced (s : Store) (tenant id : String) (next : Option PolicyLimitData) (now : ℤ) :
    Store :=
  match next with
  | none => s.unsynced tenant id
  | some limit => limit.dimensions.foldl (syncDimension tenant limit now) (s.unsynced tenant id)

/-- **`syncPolicyLimit`** as a function on stores. -/
theorem syncPolicyLimit_eq {id : String} {next : Option PolicyLimitData}
    (h : Runs (syncPolicyLimit tenant id next now) s u s') :
    s' = s.synced tenant id next now := by
  simp only [syncPolicyLimit, runs_bind, runs_modify] at h
  obtain ⟨-, s₁, hdel, hnext⟩ := h
  obtain rfl : s.unsynced tenant id = s₁ := by
    rw [← hdel, Store.unsynced, Store.datum]
    rcases s.resource tenant .policyLimits id with - | ⟨v, old⟩ <;> rfl
  rcases next with - | limit
  · exact (runs_pure.1 hnext).2.symm
  · simp only [runs_bind, runs_require, runs_modify] at hnext
    obtain ⟨_, _, ⟨-, rfl⟩, rfl⟩ := hnext
    rfl

theorem policyOnly_unsynced (s : Store) (t id : String) : PolicyOnly s (s.unsynced t id) := by
  unfold Store.unsynced
  split
  · exact PolicyOnly.refl s
  split
  · exact PolicyOnly.refl s
  · exact ⟨rfl, rfl, fun _ h => h⟩

theorem policyOnly_synced (s : Store) (t id : String) (next : Option PolicyLimitData) (now : ℤ) :
    PolicyOnly s (s.synced t id next now) := by
  rcases next with - | limit
  · exact policyOnly_unsynced s t id
  · exact List.foldlRecOn limit.dimensions _ (policyOnly_unsynced s t id) fun t' h d _ =>
      h.trans (policyOnly_syncDimension t limit now t' d)

/-- A row is used for a plan. -/
def limitMatches (p : AttemptPlan) (e : AllowanceKey × PolicyLimitRow) : Bool :=
  policyScopeMatches e.1.scopeKind e.1.scopeID p && decide (0 < e.2.maximum)

/-- **What resolving a row does**: a row that is used and has a window to be
counted in gives an allowance, and its window is rolled over if it has ended. -/
theorem resolveRow_cases {as as' : List Allowance} {e : AllowanceKey × PolicyLimitRow}
    (h : Runs (resolveRow p now as e) s as' s') :
    (¬ (limitMatches p e = true ∧ (resolvedWindow s e.1 now).isSome = true) ∧ as' = as ∧ s' = s) ∨
    ∃ wid required, limitMatches p e = true ∧ resolvedWindow s e.1 now = some wid ∧
      requiredAmount p "cost policy requires bounded price" e.1.kind 1 = .ok required ∧
      as' = as ++ [⟨e.1.scopeKind, e.1.scopeID, wid, e.1.kind, e.2.maximum, required⟩] ∧
      s' = if windowActive s e.1.tenantID e.1.windowID now then s else s.rollWindow e.1 e.2 now := by
  simp only [resolveRow, runs_ite, runs_pure, runs_bind, runs_get] at h
  rcases h with ⟨hskip, rfl, rfl⟩ | ⟨hmatch, _, _, ⟨rfl, rfl⟩, h⟩
  · refine .inl ⟨fun hused => ?_, rfl, rfl⟩
    simp only [limitMatches, Bool.and_eq_true, decide_eq_true_eq] at hused
    simp [hused.1.1, hused.1.2.not_ge] at hskip
  rcases hwid : resolvedWindow s e.1 now with - | wid
  · simp only [hwid, runs_pure] at h
    exact .inl ⟨by simp, h.1.symm, h.2.symm⟩
  · simp only [hwid, runs_bind, runs_modify, runs_liftE, runs_pure] at h
    obtain ⟨_, _, rfl, required, _, ⟨hrequired, rfl⟩, rfl, rfl⟩ := h
    exact .inr ⟨wid, required, by simpa [limitMatches] using hmatch, rfl, hrequired, rfl, rfl⟩

theorem resolveRow_policyOnly {as as' : List Allowance} {e : AllowanceKey × PolicyLimitRow}
    (h : Runs (resolveRow p now as e) s as' s') : PolicyOnly s s' := by
  rcases resolveRow_cases h with ⟨-, -, rfl⟩ | ⟨_, _, -, -, -, -, rfl⟩
  · exact PolicyOnly.refl _
  split
  · exact PolicyOnly.refl _
  · exact policyOnly_rollWindow _ _ _ now

/-- The cursor at a key resolves the row that is there. -/
theorem resolveKey_cases {as as' : List Allowance} {k : AllowanceKey}
    (h : Runs (resolveKey p now as k) s as' s') :
    (s.policyLimits.lookup k = none ∧ as' = as ∧ s' = s) ∨
      ∃ row, s.policyLimits.lookup k = some row ∧ Runs (resolveRow p now as (k, row)) s as' s' := by
  simp only [resolveKey, runs_bind, runs_get] at h
  obtain ⟨_, _, ⟨rfl, rfl⟩, h⟩ := h
  rcases hrow : s.policyLimits.lookup k with - | row <;> rw [hrow] at h
  · exact .inl ⟨rfl, (runs_pure.1 h).1.symm, (runs_pure.1 h).2.symm⟩
  · exact .inr ⟨row, rfl, h⟩

/-- **`resolveAllowances`** walks over the keys one by one. -/
theorem resolveAllowances_runs {plan : AttemptPlan}
    (h : Runs (resolveAllowances p now) s plan s') :
    ∃ as, Runs ((cursorKeys s p.tenantID now).foldlM (resolveKey p now) []) s as s' ∧
      plan = { p with allowances := as } := by
  simp only [resolveAllowances, runs_bind, runs_get, runs_pure] at h
  obtain ⟨_, _, ⟨rfl, rfl⟩, as, _, hloop, rfl, rfl⟩ := h
  exact ⟨as, hloop, rfl⟩

/-- Deriving a plan moves no counter; only the allowances of the plan are replaced. -/
theorem derivePlanTx_runs {principal : Option Principal} {p' : AttemptPlan}
    (h : Runs (derivePlanTx principal p now) s p' s') :
    checkPlan s principal p now = .ok () ∧ Runs (resolveAllowances p now) s p' s' ∧
      PolicyOnly s s' ∧ p' = { p with allowances := p'.allowances } := by
  simp only [derivePlanTx, runs_bind, runs_get, runs_liftE] at h
  obtain ⟨_, _, ⟨rfl, rfl⟩, _, _, ⟨hcheck, rfl⟩, hres⟩ := h
  refine ⟨hcheck, hres, ?_⟩
  obtain ⟨as, hloop, rfl⟩ := resolveAllowances_runs hres
  refine ⟨?_, rfl⟩
  refine runs_foldlM_inv (fun _ t => PolicyOnly _ t) hloop (PolicyOnly.refl _) ?_
  intro k _ c t c' t' hP hkey
  rcases resolveKey_cases hkey with ⟨-, -, rfl⟩ | ⟨row, -, hrow⟩
  · exact hP
  · exact hP.trans (resolveRow_policyOnly hrow)

/-! ### What only moves counters -/

/-- Only counter rows changed, and none disappeared. -/
structure CountersOnly (s s' : Store) : Prop where
  frame : s' = { s with allowances := s'.allowances }
  rows : ∀ k, (s.allowances.lookup k).isSome → (s'.allowances.lookup k).isSome

theorem CountersOnly.refl (s : Store) : CountersOnly s s := ⟨rfl, fun _ h => h⟩

theorem CountersOnly.trans (h₁ : CountersOnly s₁ s₂) (h₂ : CountersOnly s₂ s₃) :
    CountersOnly s₁ s₃ where
  frame := by rw [h₂.frame, h₁.frame]
  rows := fun k h => h₂.rows k (h₁.rows k h)

theorem CountersOnly.attempts (h : CountersOnly s s') : s'.attempts = s.attempts := by
  rw [h.frame]

theorem CountersOnly.usageLedger (h : CountersOnly s s') : s'.usageLedger = s.usageLedger := by
  rw [h.frame]

theorem runs_updateReserved :
    Runs (updateReserved k d guard e) s u s' ↔
      ∃ row, s.allowances.lookup k = some row ∧ guard row.reserved = true ∧
        { s with allowances := s.allowances.insert k ⟨row.reserved + d, row.version + 1⟩ } = s' := by
  simp only [updateReserved, runs_bind, runs_get, runs_orFail, runs_require, runs_modify]
  constructor
  · rintro ⟨_, _, ⟨rfl, rfl⟩, row, _, ⟨hrow, rfl⟩, _, _, ⟨hg, rfl⟩, rfl⟩
    exact ⟨row, hrow, hg, rfl⟩
  · rintro ⟨row, hrow, hg, rfl⟩
    exact ⟨s, s, ⟨rfl, rfl⟩, row, s, ⟨hrow, rfl⟩, (), s, ⟨hg, rfl⟩, rfl⟩

/-- An update of a counter row adds its delta to the vector of counters. -/
theorem updateReserved_reserved (h : Runs (updateReserved k d guard e) s u s') :
    CountersOnly s s' ∧ s'.reserved = s.reserved + Pi.single k d := by
  obtain ⟨row, hrow, -, rfl⟩ := runs_updateReserved.1 h
  refine ⟨⟨rfl, ?_⟩, ?_⟩
  · intro k' hk'
    by_cases hk : k' = k
    · subst hk
      simp
    · simpa [AList.lookup_insert_ne hk] using hk'
  · rw [Store.reserved_insert]
    funext k'
    by_cases hk : k' = k
    · subst hk
      simp [Store.reserved, hrow]
    · simp [hk]

/-! ### Reserving -/

/-- What admission holds of an allowance: nothing of a request unit that an
earlier attempt of the request has taken. -/
def admissionHold (p : AttemptPlan) (seenRequest : Bool) (a : Allowance) : Except StoreError ℤ :=
  (admissionAmount p a).map fun amount =>
    if seenRequest = true ∧ a.kind = .requests then 0 else amount

theorem reserveAllowance_runs {held' : List ℤ}
    (h : Runs (reserveAllowance p seen now held a) s held' s') :
    ∃ amount, held' = held ++ [amount] ∧ admissionHold p seen a = .ok amount ∧
      CountersOnly s s' ∧ s'.reserved = s.reserved + heldAt p.tenantID a amount := by
  simp only [reserveAllowance, runs_bind, runs_liftE, runs_ite, runs_pure,
    runs_get, runs_orFail, runs_require] at h
  obtain ⟨amount, s₁, ⟨hamount, rfl⟩, ⟨hskip, rfl, rfl⟩ | ⟨htake, hrest⟩⟩ := h
  · refine ⟨0, rfl, ?_, CountersOnly.refl _, ?_⟩
    · rcases hskip with rfl | hseen
      · simp [admissionHold, hamount, Except.map]
      · simp [admissionHold, hamount, Except.map, hseen]
    · simp [heldAt]
  · obtain ⟨_, _, ⟨rfl, rfl⟩, limit, _, ⟨-, rfl⟩, _, _, ⟨-, rfl⟩, _, _, ⟨-, rfl⟩, _, _,
      hupd, rfl, rfl⟩ := hrest
    obtain ⟨hframe, hres⟩ := updateReserved_reserved hupd
    refine ⟨amount, rfl, ?_, hframe, hres⟩
    have hseen : ¬ (seen = true ∧ a.kind = .requests) := fun hs => htake (.inr hs)
    simp [admissionHold, hamount, Except.map, hseen]

/-- The reservation loop holds an amount of every allowance, and the counters
rise by what the attempt holds. -/
theorem reserveAllowances_runs
    (h : Runs (p.allowances.foldlM (reserveAllowance p seen now) []) s held s') :
    List.Forall₂ (fun a amount => admissionHold p seen a = .ok amount) p.allowances held ∧
      CountersOnly s s' ∧
      s'.reserved = s.reserved + (List.zipWith (heldAt p.tenantID) p.allowances held).sum := by
  refine runs_foldlM_induct (fun done c t =>
    List.Forall₂ (fun a amount => admissionHold p seen a = .ok amount) done c ∧
      CountersOnly s t ∧
      t.reserved = s.reserved + (List.zipWith (heldAt p.tenantID) done c).sum) h ?_ ?_
  · exact ⟨.nil, CountersOnly.refl s, by simp⟩
  · intro done a c t c' t' _ ⟨hall, hframe, hres⟩ hstep
    obtain ⟨amount, rfl, hamount, hframe', hres'⟩ := reserveAllowance_runs hstep
    refine ⟨rel_append hall (.cons hamount .nil), hframe.trans hframe', ?_⟩
    rw [hres', hres, zipWith_append hall.length_eq]
    simp [add_assoc]

/-! ### Moving a hold -/

/-- The envelope with one hold replaced. -/
def AttemptEnvelope.setHeld (env : AttemptEnvelope) (i : ℕ) (target : ℤ) : AttemptEnvelope :=
  env.withHeld (env.held.set i target)

theorem setHeld_of_getElem? (hi : env.held[i]? = some h) : env.setHeld i h = env := by
  obtain ⟨hlt, rfl⟩ := List.getElem?_eq_some_iff.1 hi
  rw [AttemptEnvelope.setHeld, set_getElem_self]
  rfl

theorem setHeld_holds (ha : env.plan.allowances[i]? = some a) (hh : env.held[i]? = some h)
    (target : ℤ) :
    (env.setHeld i target).holds = env.holds + Pi.single (a.key env.plan.tenantID) (target - h) :=
  sum_zipWith_set env.plan.tenantID target ha hh

/-- **A moved hold moves the counters by the same vector.** -/
theorem adjustHoldMode_runs {target : ℤ} {overrun : Bool}
    (h : Runs (adjustHoldMode env i target overrun) s env' s') :
    env' = env.setHeld i target ∧ CountersOnly s s' ∧
      s'.reserved + env.holds = s.reserved + env'.holds := by
  simp only [adjustHoldMode, runs_bind, runs_orFail, runs_require, runs_ite, runs_pure] at h
  obtain ⟨a, _, ⟨ha, rfl⟩, _, _, ⟨-, rfl⟩, current, _, ⟨hcur, rfl⟩, h⟩ := h
  -- one counter row moves by `target - current`, whichever guard applies
  have hmove : ∀ {guard e u s₁}, Runs (updateReserved (a.key env.plan.tenantID)
      (target - current) guard e) s u s₁ →
      CountersOnly s s₁ ∧ s₁.reserved + env.holds = s.reserved + (env.setHeld i target).holds := by
    intro guard e u s₁ hupd
    obtain ⟨hframe, hres⟩ := updateReserved_reserved hupd
    refine ⟨hframe, ?_⟩
    rw [hres, setHeld_holds ha hcur]
    abel
  rcases h with ⟨rfl, rfl, rfl⟩ | ⟨-, h⟩
  · exact ⟨(setHeld_of_getElem? hcur).symm, CountersOnly.refl s, rfl⟩
  rcases h with ⟨-, _, _, hupd, rfl, rfl⟩ | ⟨-, ⟨-, _, _, hupd, rfl, rfl⟩ |
    ⟨-, _, _, ⟨-, rfl⟩, _, _, hupd, rfl, rfl⟩⟩
  · exact ⟨rfl, hmove hupd⟩
  · exact ⟨rfl, hmove hupd⟩
  · exact ⟨rfl, hmove hupd⟩

theorem take_append_drop_set {xs ys : List ℤ} {n : ℕ} {v : ℤ} (hlen : xs.length = ys.length)
    (hv : xs[n]? = some v) :
    (xs.take n ++ ys.drop n).set n v = xs.take (n + 1) ++ ys.drop (n + 1) := by
  have hn : n < ys.length := hlen ▸ (List.getElem?_eq_some_iff.1 hv).1
  have htake : (xs.take n).length = n := by simp [hlen, hn.le]
  rw [set_append_right _ _ htake.le, htake, Nat.sub_self, drop_eq_getElem_cons hn,
    set_cons_zero, take_add_one, hv]
  simp

/-- What one step of a loop over the allowances of an attempt does: it sets
the hold at its index to `target`, and the counters move with it. -/
def MovesHold (target : Allowance → ℤ → ℤ)
    (step : AttemptEnvelope → Allowance × ℕ → StoreTx AttemptEnvelope) : Prop :=
  ∀ env env' a i s s' h, env.held[i]? = some h → Runs (step env (a, i)) s env' s' →
    env' = env.setHeld i (target a h) ∧ CountersOnly s s' ∧
      s'.reserved + env.holds = s.reserved + env'.holds

/-- **A loop that moves holds** sets every hold to its target and moves the
counters by the difference. -/
theorem MovesHold.runs {target : Allowance → ℤ → ℤ}
    {step : AttemptEnvelope → Allowance × ℕ → StoreTx AttemptEnvelope}
    (hstep : MovesHold target step) (hlen : env.held.length = env.plan.allowances.length)
    (h : Runs (env.plan.allowances.zipIdx.foldlM step env) s env' s') :
    env' = env.withHeld (List.zipWith target env.plan.allowances env.held) ∧
      CountersOnly s s' ∧ s'.reserved + env.holds = s.reserved + env'.holds := by
  have hn : (List.zipWith target env.plan.allowances env.held).length = env.held.length := by
    simp [hlen]
  -- after `n` steps the first `n` holds are moved and the rest untouched
  have key := runs_foldlM_zipIdx (fun n c t =>
    c = env.withHeld ((List.zipWith target env.plan.allowances env.held).take n ++
      env.held.drop n) ∧
      CountersOnly s t ∧ t.reserved + env.holds = s.reserved + c.holds) h ?_ ?_
  · obtain ⟨henv, hframe, hres⟩ := key
    refine ⟨?_, hframe, hres⟩
    rw [henv, ← hlen, drop_length, ← hn, take_length, append_nil]
  · exact ⟨rfl, CountersOnly.refl s, rfl⟩
  · intro n a c t c' t' ha ⟨hc, hframe, hres⟩ hrun
    have hlt : n < env.held.length := hlen ▸ (List.getElem?_eq_some_iff.1 ha).1
    have hheld₀ : env.held[n]? = some env.held[n] := List.getElem?_eq_getElem hlt
    have hheld : c.held[n]? = some env.held[n] := by
      rw [hc, withHeld_held, List.getElem?_append_right (by simp)]
      simp [← hlen, hlt.le]
    have hset : (List.zipWith target env.plan.allowances env.held)[n]? =
        some (target a env.held[n]) := by
      simp [List.getElem?_zipWith, ha, hheld₀]
    obtain ⟨hc', hframe', hres'⟩ := hstep c c' a n t t' _ hheld hrun
    refine ⟨?_, hframe.trans hframe', ?_⟩
    · rw [hc', hc, AttemptEnvelope.setHeld, withHeld_held, take_append_drop_set hn hset]
      rfl
    · calc t'.reserved + env.holds
          = (t'.reserved + c.holds) + (t.reserved + env.holds) - (t.reserved + c.holds) := by abel
        _ = (t.reserved + c'.holds) + (s.reserved + c.holds) - (t.reserved + c.holds) := by
            rw [hres', hres]
        _ = s.reserved + c'.holds := by abel

/-- `FinalizeAttempt` moves every hold to the target its evidence gives. -/
theorem movesHold_settleHold (e : Evidence) : MovesHold (holdTarget e) (settleHold e) := by
  intro env env' a i s s' h hheld hrun
  simp only [settleHold, runs_bind, runs_orFail, runs_ite] at hrun
  obtain ⟨held, _, ⟨hheld', rfl⟩, hadj⟩ := hrun
  cases hheld.symm.trans hheld'
  rcases hadj with ⟨-, hadj⟩ | ⟨-, hadj⟩ <;> exact adjustHoldMode_runs hadj

end Hoorific
