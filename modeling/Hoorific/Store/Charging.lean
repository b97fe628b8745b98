/-
Admission charges every matching limit.  `BeginAttempt` resolves the
matching rows of `policy_limits` to the current windows and then reserves
the required amount of every allowance, each under a guard.  So the counter
of a limit rises by the required amount at least once
(`beginAttempt_reserved`), and a counter that moved ends within the maximum
of its row (`reserveAllowances_guarded`).

A plan may have several allowances of one limit, so the counter rises by
more than was required; were the required amount negative, it would fall by
more.  The planner computes no negative cost, but `BeginAttempt` does not
ask for it.
-/
import Mathlib.Algebra.Order.BigOperators.Group.List
import Hoorific.Store.Windowed

namespace Hoorific

open List Tx

/-! ### Limits are applied -/

/-- **Every matching limit is charged, and no charged counter is over its
limit**: the current-window counter of every matching row rose by what the
attempt requires, unless that is nothing or the request was seen before, and
a counter that rose is within the maximum of its row. -/
structure LimitsApplied (s s' : Store) (p : AttemptPlan) (now : ℤ) : Prop where
  charged : ∀ k row, s.policyLimits.lookup k = some row → k.tenantID = p.tenantID →
    policyScopeMatches k.scopeKind k.scopeID p = true → 0 < row.maximum →
    requiredUnits p k.kind = 0 ∨
      (k.kind = .requests ∧ requestSeen s p.tenantID p.requestID = true) ∨
      s.reserved (k.current now) + requiredUnits p k.kind ≤ s'.reserved (k.current now)
  bounded : ∀ k, s.reserved k < s'.reserved k →
    ∃ row, s'.policyLimits.lookup k = some row ∧ s'.reserved k ≤ row.maximum

variable {s s' : Store} {p plan : AttemptPlan} {now : ℤ} {k : AllowanceKey}
  {row : PolicyLimitRow} {seen : Bool} {held held' : List ℤ} {a : Allowance} {as : List Allowance}
  {planNow : ℤ} {t : String}

/-! ### The reservation loop -/

/-- What an attempt takes of a counter. -/
def takenUnits (p : AttemptPlan) (seenRequest : Bool) (kind : AllowanceKind) : ℤ :=
  if seenRequest = true ∧ kind = .requests then 0 else requiredUnits p kind

/-- A reservation that takes something is within the window and leaves the
counter within the limit. -/
theorem reserveAllowance_guarded (h : Runs (reserveAllowance p seen now held a) s held' s')
    (htaken : admissionUnits p seen a ≠ 0) :
    windowOpen s p.tenantID a.windowID now = true ∧
      ∃ limit, s.policyLimits.lookup (a.key p.tenantID) = some limit ∧
        s'.reserved (a.key p.tenantID) ≤ limit.maximum := by
  obtain ⟨_, -, hamount, -⟩ := reserveAllowance_runs h
  obtain rfl := admissionHold_units hamount
  simp only [reserveAllowance, runs_bind, runs_liftE, runs_ite, runs_pure,
    runs_get, runs_orFail, runs_require] at h
  obtain ⟨amount, _, ⟨hneeded, rfl⟩, ⟨hskip, -⟩ | ⟨-, _, _, ⟨rfl, rfl⟩, limit, _,
    ⟨hlimit, rfl⟩, _, _, ⟨hmax, rfl⟩, _, _, ⟨hopen, rfl⟩, _, _, hupdate, -, rfl⟩⟩ := h
  · -- what is skipped takes nothing
    rw [admissionHold, hneeded] at hamount
    have hunits : (if seen = true ∧ a.kind = .requests then 0 else amount) =
        admissionUnits p seen a := Except.ok.inj hamount
    refine absurd ?_ htaken
    rw [← hunits]
    rcases hskip with rfl | hseen
    · exact ite_self 0
    · exact if_pos hseen
  · obtain ⟨row, -, hguard, rfl⟩ := runs_updateReserved.1 hupdate
    refine ⟨hopen, limit, hlimit, ?_⟩
    obtain ⟨-, -, hle, -⟩ := of_decide_eq_true hmax
    have hreserved : row.reserved + amount ≤ a.maximum := of_decide_eq_true hguard
    rw [Store.reserved_insert, Function.update_self]
    exact hreserved.trans hle

/-- A reservation that takes nothing leaves the counters alone. -/
theorem reserveAllowance_idle (h : Runs (reserveAllowance p seen now held a) s held' s')
    (htaken : admissionUnits p seen a = 0) : s'.reserved = s.reserved := by
  obtain ⟨amount, -, hamount, -, hreserved⟩ := reserveAllowance_runs h
  rw [hreserved, admissionHold_units hamount, htaken, heldAt, Pi.single_zero, add_zero]

/-- **The reservation loop**: what is taken is taken in an open window, and a
counter that moved ends within its limit. -/
theorem reserveAllowances_guarded
    (h : Runs (as.foldlM (reserveAllowance p seen now) []) s held s') :
    (∀ a ∈ as, admissionUnits p seen a ≠ 0 → windowOpen s p.tenantID a.windowID now = true) ∧
      ∀ k, s'.reserved k ≠ s.reserved k →
        ∃ limit, s.policyLimits.lookup k = some limit ∧ s'.reserved k ≤ limit.maximum := by
  have hloop := runs_foldlM_induct (fun done _ t => CountersOnly s t ∧
    (∀ a ∈ done, admissionUnits p seen a ≠ 0 →
      windowOpen s p.tenantID a.windowID now = true) ∧
    ∀ k, t.reserved k ≠ s.reserved k →
      ∃ limit, s.policyLimits.lookup k = some limit ∧ t.reserved k ≤ limit.maximum) h
    ⟨.refl s, fun _ ha => (by cases ha), fun _ hk => absurd rfl hk⟩ ?_
  · exact hloop.2
  · intro done a c t c' t' _ ⟨hframe, hopen, hbounded⟩ hstep
    obtain ⟨amount, -, hamount, hframe', hreserved⟩ := reserveAllowance_runs hstep
    have hlimits : t.policyLimits = s.policyLimits := by rw [hframe.frame]
    have hwindow : windowOpen t p.tenantID a.windowID now =
        windowOpen s p.tenantID a.windowID now := by
      rw [windowOpen, windowOpen, hframe.frame]
    refine ⟨hframe.trans hframe', ?_, ?_⟩
    · refine forall_mem_append.2 ⟨hopen, forall_mem_singleton.2 fun htaken => ?_⟩
      rw [← hwindow]
      exact (reserveAllowance_guarded hstep htaken).1
    · intro k hk
      by_cases htaken : admissionUnits p seen a = 0
      · rw [reserveAllowance_idle hstep htaken] at hk ⊢
        exact hbounded k hk
      by_cases hkey : k = a.key p.tenantID
      · subst hkey
        rw [← hlimits]
        exact (reserveAllowance_guarded hstep htaken).2
      have hsame : t'.reserved k = t.reserved k := by
        rw [hreserved, Pi.add_apply, heldAt, Pi.single_eq_of_ne hkey, add_zero]
      rw [hsame] at hk ⊢
      exact hbounded k hk

/-! ### What an admission charges -/

theorem windowID_eq_total {id : WindowID} : id = .total ↔ id.window = .total := by
  cases id with
  | total | minute | daily | monthly | other => simp [WindowID.window]

/-- The counter of an allowance that is counted under its current window. -/
theorem Allowance.Current.key_eq (ha : a.Current p now) (hlimit : a.limit = k.limit) :
    a.key k.tenantID = k.current now := by
  rcases a with ⟨scope, id, window, kind, maximum, reserve⟩
  rcases k with ⟨t, scope', id', window', kind'⟩
  simp only [Allowance.limit, AllowanceKey.limit, Prod.mk.injEq] at hlimit
  obtain ⟨rfl, rfl, hwindow, rfl⟩ := hlimit
  have htotal : window = .total ↔ window' = .total := by
    rw [windowID_eq_total, hwindow, ← windowID_eq_total]
  simp only [Allowance.key, AllowanceKey.current, ← htotal, ← hwindow, AllowanceKey.mk.injEq,
    and_true, true_and]
  split
  next h => exact h
  next h => exact ha.1.resolve_left h

/-- An attempt takes of a resolved allowance what its kind requires. -/
theorem Allowance.Current.admissionUnits_eq (ha : a.Current p now) (as : List Allowance) :
    admissionUnits { p with allowances := as } seen a = takenUnits p seen a.kind := by
  have hreserve := ha.2
  rcases hkind : a.kind with _ | _ | _ | _ | _ | text <;>
    simp [admissionUnits, takenUnits, requiredUnits, hkind, hreserve]

/-- A limit whose current window at one time is open at another has the same
current window there. -/
theorem Store.Windowed.current_of_open (h : s.Windowed) (hnow : 0 ≤ now)
    (hk : k.windowID = .total ∨ ∃ at_, k.windowID.Issued at_)
    (hopen : windowOpen s t (k.current planNow).windowID now = true) :
    k.current planNow = k.current now := by
  rcases hk with htotal | ⟨at_, hissued⟩
  · simp only [AllowanceKey.current, if_pos htotal]
  have hid : (k.current planNow).windowID = currentWindowID planNow k.windowID.window :=
    if_neg hissued.ne_total
  have hwindow := currentWindowID_window (hissued.current_ne planNow)
  rw [hid, windowOpen, Bool.or_eq_true, beq_iff_eq] at hopen
  rcases hopen with htotal | hbounds
  · exact absurd htotal (currentWindowID_ne_total _ _)
  rcases hrow : s.quotaWindows.lookup (t, currentWindowID planNow k.windowID.window) with - | w
  all_goals rw [hrow] at hbounds
  · cases hbounds
  · obtain ⟨at', hissued', hstored⟩ := h.windows _ _ w hrow
    rw [hwindow] at hstored
    have hsame : currentWindowID now k.windowID.window = currentWindowID at' k.windowID.window := by
      apply currentWindowID_of_bounds hnow
      rw [← hstored]
      exact of_decide_eq_true hbounds
    have hid' := hissued'.2
    rw [hwindow] at hid'
    simp only [AllowanceKey.current, if_neg hissued.ne_total, hsame, ← hid']

/-- A required amount that is known is not negative, unless it is a cost. -/
theorem requiredUnits_nonneg {unbounded : String} {kind : AllowanceKind} {otherwise amount : ℤ}
    (hcost : 0 ≤ p.maximumCost.getD 0)
    (h : requiredAmount { p with allowances := as } unbounded kind otherwise = .ok amount) :
    0 ≤ requiredUnits p kind := by
  cases kind with
  | cost => exact hcost
  | requests | concurrency | jobs | other => exact Int.one_nonneg
  | tokens =>
    obtain ⟨hnonneg, rfl⟩ := requiredAmount_tokens h
    exact hnonneg

/-- A counter gains what one of the holds takes of it, if none is negative. -/
theorem le_sum_heldAt {units : Allowance → ℤ}
    (h : List.Forall₂ (fun a amount => amount = units a) as held) (hpos : ∀ a ∈ as, 0 ≤ units a)
    (ha : a ∈ as) : units a ≤ (List.zipWith (heldAt t) as held).sum (a.key t) := by
  rw [sum_heldAt_eq t h]
  have hself : heldAt t a (units a) (a.key t) = units a := Pi.single_eq_same _ _
  refine hself.symm.le.trans (single_le_sum ?_ _ (mem_map_of_mem ha))
  intro x hx
  obtain ⟨b, hb, rfl⟩ := mem_map.1 hx
  rw [heldAt, Pi.single_apply]
  split
  · exact hpos b hb
  · exact le_refl 0

/-- **What an admission does to the counters**, if the cost is not negative: the
current-window counter of every matching row rises by what is taken of it, and
a counter that moved ends within its limit. -/
theorem beginAttempt_reserved {principal : Option Principal} {submitted : AttemptPlan}
    {permit : AttemptPermit} (hs : s.Windowed) (hnow : 0 ≤ now) (hclock : now ≤ planNow)
    (hcost : 0 ≤ submitted.maximumCost.getD 0)
    (hnew : s.attempts.lookup ⟨submitted.tenantID, submitted.attemptID⟩ = none)
    (h : Runs (beginAttempt principal submitted now planNow) s permit s') :
    (∀ k row, (k, row) ∈ matchingLimits s submitted →
      takenUnits submitted (requestSeen s submitted.tenantID submitted.requestID) k.kind ≠ 0 →
      s.reserved (k.current now) + takenUnits submitted
          (requestSeen s submitted.tenantID submitted.requestID) k.kind ≤
        s'.reserved (k.current now)) ∧
    ∀ k, s'.reserved k ≠ s.reserved k →
      ∃ row, s'.policyLimits.lookup k = some row ∧ s'.reserved k ≤ row.maximum := by
  obtain ⟨plan, s₁, -, hres, hpolicy, hframe, hend⟩ := beginAttempt_runs h
  have hs₁ := resolveAllowances_windowed hs hres
  have hcurrent := resolveAllowances_current hs (hnow.trans hclock) hres
  have ht : plan.tenantID = submitted.tenantID := by rw [hframe]
  have hr : plan.requestID = submitted.requestID := by rw [hframe]
  have ha : plan.attemptID = submitted.attemptID := by rw [hframe]
  rcases hend with ⟨-, row, hstored, -⟩ | ⟨_, held, _, s₂, -, hloop, rfl⟩
  · rw [ht, ha, hnew] at hstored
    cases hstored
  obtain ⟨hheld, hcounters, hreserved⟩ := reserveAllowances_runs hloop
  obtain ⟨hopen, hbounded⟩ := reserveAllowances_guarded hloop
  rw [ht, hr] at hheld hopen
  rw [ht] at hreserved
  generalize requestSeen s submitted.tenantID submitted.requestID = seen at *
  have hunits : ∀ a ∈ plan.allowances, admissionUnits plan seen a = takenUnits submitted seen a.kind :=
    fun a ha => by rw [hframe]; exact (hcurrent a ha).admissionUnits_eq _
  refine ⟨fun k row hrow htaken => ?_, fun k hk => ?_⟩
  · obtain ⟨hlookup, htenant, -⟩ := mem_matchingLimits.1 hrow
    have hissued := hs.limits k row hlookup
    have hcounted : countedAt s planNow (k, row) = true := by
      rw [countedAt, hs.resolvedWindow_eq (hnow.trans hclock) hissued]
      rfl
    obtain ⟨a, ha, hlimit⟩ := resolveAllowances_covers hres hrow hcounted
    have hkind : a.kind = k.kind := congrArg (fun l => l.2.2.2) hlimit
    have hkey : a.key submitted.tenantID = k.current planNow :=
      htenant ▸ (hcurrent a ha).key_eq hlimit
    -- what is taken is taken in the window that contains `now`
    have hwindow : k.current planNow = k.current now := by
      refine hs₁.current_of_open hnow hissued (t := submitted.tenantID) ?_
      rw [← hkey]
      exact hopen a ha (by rw [hunits a ha, hkind]; exact htaken)
    have hpos : ∀ a ∈ plan.allowances, 0 ≤ admissionUnits plan seen a := by
      intro a ha
      obtain ⟨amount, -, hamount⟩ := forall₂_exists hheld ha
      rw [hunits a ha, takenUnits]
      split
      · exact le_refl 0
      rcases hneeded : admissionAmount plan a with e | needed
      · rw [admissionHold, hneeded] at hamount
        cases hamount
      · rw [hframe] at hneeded
        exact requiredUnits_nonneg hcost hneeded
    have hle := le_sum_heldAt (t := submitted.tenantID) (hheld.imp fun _ _ => admissionHold_units)
      hpos ha
    rw [hunits a ha, hkind, hkey, hwindow] at hle
    show _ ≤ s₂.reserved (k.current now)
    rw [hreserved, hpolicy.reserved]
    exact Int.add_le_add_left hle _
  · rw [← hpolicy.reserved] at hk
    show ∃ row, s₂.policyLimits.lookup k = some row ∧ s₂.reserved k ≤ row.maximum
    rw [hcounters.frame]
    exact hbounded k hk

/-! ### Admissions -/

/-- **Admission applies every matching limit**, for every attempt that is
inserted in a state of a run with a maximum cost that is not negative. -/
theorem limits_applied (ops : List SystemOp) (principal : Option Principal)
    (submitted : AttemptPlan) (now planNow : ℤ) (hnow : 0 ≤ now) (hclock : now ≤ planNow)
    (hcost : ∀ cost, submitted.maximumCost = some cost → 0 ≤ cost)
    (permit : AttemptPermit) (s' : Store)
    (hnew : (run SystemOp.step {} ops).attempts.lookup
      ⟨submitted.tenantID, submitted.attemptID⟩ = none)
    (hrun : Runs (beginAttempt principal submitted now planNow) (run SystemOp.step {} ops)
      permit s') :
    LimitsApplied (run SystemOp.step {} ops) s' submitted now := by
  have hnonneg : 0 ≤ submitted.maximumCost.getD 0 := by
    rcases hmaximum : submitted.maximumCost with - | cost
    · exact le_refl 0
    · exact hcost cost hmaximum
  obtain ⟨hcharged, hbounded⟩ :=
    beginAttempt_reserved (run_sound ops).windowed hnow hclock hnonneg hnew hrun
  refine ⟨fun k row hrow htenant hscope hmax => ?_, fun k hk => hbounded k hk.ne'⟩
  have hk : (k, row) ∈ matchingLimits (run SystemOp.step {} ops) submitted :=
    mem_matchingLimits.2 ⟨hrow, htenant, by simp [limitMatches, hscope, hmax]⟩
  by_cases hskip : requestSeen (run SystemOp.step {} ops) submitted.tenantID submitted.requestID =
      true ∧ k.kind = .requests
  · exact .inr (.inl hskip.symm)
  by_cases hzero : requiredUnits submitted k.kind = 0
  · exact .inl hzero
  have hrises := hcharged k row hk
  rw [takenUnits, if_neg hskip] at hrises
  exact .inr (.inr (hrises hzero))

/-- A tenant with its owner, an administrator's key and one connection. -/
def ownedStore : Store :=
  { ownedTenant with apiKeys := sampleStore.apiKeys, resources := sampleStore.resources }

/-- A plan with a maximum cost, and without a model that would bound it. -/
def costPlan (requestID attemptID : String) (cost : ℤ) : AttemptPlan :=
  { samplePlan requestID attemptID with
    configRevision := 1, maximumCost := some cost, deadline := Time.ofUnix 200000 }

/-- A cost limit per day. -/
def dailyLimit : List SystemOp :=
  [.account ⟨.configure ownedStore, rfl⟩,
   .mutate samplePlatform tableOrder ownerPrincipal
    { kind := .policyLimits, id := "l", expectedVersion := 0
      data := some ({ scope := .tenant, scopeID := "t", maxCost := 100, costWindow := .daily } :
        PolicyLimitData) } 0]

/-- An admission on the next day. -/
def nextAdmission (cost : ℤ) : Except StoreError AttemptPermit × Store :=
  commit (beginAttempt none (costPlan "r" "x" cost) 86400 86400) (run SystemOp.step {} dailyLimit)

/-- The counter of the day has risen by the cost. -/
theorem nextAdmission_applied :
    LimitsApplied (run SystemOp.step {} dailyLimit) (nextAdmission 5).2 (costPlan "r" "x" 5)
      86400 := by
  have hok : (nextAdmission 5).1.isOk = true := by decide +kernel
  obtain ⟨permit, hrun⟩ := runs_of_isOk hok
  have hnew : (run SystemOp.step {} dailyLimit).attempts.lookup ⟨"t", "x"⟩ = none := by
    decide +kernel
  refine limits_applied dailyLimit none (costPlan "r" "x" 5) 86400 86400 (by decide) (le_refl _)
    (fun cost hcost => ?_) permit _ hnew hrun
  cases hcost
  decide

/-- The counter of the day falls by twice the negative cost. -/
theorem nextAdmission_lowers :
    (nextAdmission (-5)).1.isOk = true ∧
      ¬ LimitsApplied (run SystemOp.step {} dailyLimit) (nextAdmission (-5)).2
        (costPlan "r" "x" (-5)) 86400 := by
  refine ⟨by decide +kernel, fun h => ?_⟩
  have hrow : (run SystemOp.step {} dailyLimit).policyLimits.lookup
      ⟨"t", .tenant, "t", .daily 1970 1, .cost⟩ = some ⟨100, 100, 1⟩ := by decide +kernel
  rcases h.charged _ _ hrow rfl rfl (by decide) with hzero | ⟨hreq, -⟩ | hcharged
  · exact absurd hzero (by decide)
  · cases hreq
  · exact absurd hcharged (by decide +kernel)

end Hoorific
