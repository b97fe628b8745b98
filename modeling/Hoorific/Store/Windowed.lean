/-
The windows in the policy tables are the ones the clock has given out.
Every id in `policy_limits` and `quota_windows` is `total` or was the
current one at some time, and the stored bounds are those of that time
(`Store.Windowed`).  Synchronizing a valid limit and resolving a plan keep
this, whatever the clock reads.

It follows what `resolveAllowances` makes of a row: its window is active
exactly if it is the current one, so every row is counted under the window
that contains the time of the resolution (`resolvedWindow_eq`), and so is
every allowance of a plan (`resolveAllowances_current`).
-/
import Hoorific.Store.Configure
import Hoorific.Store.Resolve

namespace Hoorific

open Tx Table

/-! ### Windows the clock has given out -/

/-- The id was the current one of its window at some time. -/
def WindowID.Issued (id : WindowID) (at_ : ℤ) : Prop :=
  id ≠ .other "" ∧ id = currentWindowID at_ id.window

/-- The row of the same limit in the window that contains `now`. -/
def AllowanceKey.current (k : AllowanceKey) (now : ℤ) : AllowanceKey :=
  { k with windowID := if k.windowID = .total then .total
                       else currentWindowID now k.windowID.window }

/-- **The policy tables know only windows the clock has given out**, with their
bounds. -/
structure Store.Windowed (s : Store) : Prop where
  limits : ∀ k row, s.policyLimits.lookup k = some row →
    k.windowID = .total ∨ ∃ at_, k.windowID.Issued at_
  windows : ∀ t id w, s.quotaWindows.lookup (t, id) = some w →
    ∃ at_, id.Issued at_ ∧ (w.starts, w.ends) = windowBounds at_ id.window

variable {w : Window} {id : WindowID} {at_ : ℤ} {k : AllowanceKey} {t : String}
  {as as' : List Allowance} {e : AllowanceKey × PolicyLimitRow} {next : Option PolicyLimitData}
  {platform : Platform} {order : MapOrder} {principal : Principal}

theorem issued_currentWindowID {now : ℤ} (h : currentWindowID now w ≠ .other "") :
    (currentWindowID now w).Issued now :=
  ⟨h, by rw [currentWindowID_window h]⟩

/-- A window that was current once has a current id at every time. -/
theorem WindowID.Issued.current_ne (h : id.Issued at_) (now : ℤ) :
    currentWindowID now id.window ≠ .other "" := by
  obtain ⟨hne, heq⟩ := h
  cases id with
  | minute | daily | monthly => simp [WindowID.window, currentWindowID]
  | total => simp [WindowID.window, currentWindowID] at heq
  | other text =>
    exact absurd heq hne

theorem WindowID.Issued.ne_total (h : id.Issued at_) : id ≠ .total := by
  rw [h.2]
  exact currentWindowID_ne_total at_ _

variable {s s' : Store} {now : ℤ}

theorem windowed_empty : Store.Windowed {} :=
  ⟨fun _ _ h => (by cases h), fun _ _ _ h => (by cases h)⟩

section

variable (h : s.Windowed)

include h

theorem Store.Windowed.congr (hl : s'.policyLimits = s.policyLimits)
    (hw : s'.quotaWindows = s.quotaWindows) : s'.Windowed := by
  refine ⟨?_, ?_⟩
  · rw [hl]
    exact h.limits
  · rw [hw]
    exact h.windows

theorem Store.Windowed.fewer
    (hl : ∀ k row, s'.policyLimits.lookup k = some row → s.policyLimits.lookup k = some row)
    (hw : s'.quotaWindows = s.quotaWindows) : s'.Windowed := by
  refine ⟨fun k row hk => h.limits k row (hl k row hk), ?_⟩
  rw [hw]
  exact h.windows

theorem Store.Windowed.putWindow (t : String) (hw : currentWindowID now w ≠ .other "") :
    (s.putWindow t (currentWindowID now w) (windowBounds now w)).Windowed := by
  refine ⟨h.limits, ?_⟩
  intro t' id row hrow
  rcases lookup_insert_iff.1 hrow with ⟨hid, rfl⟩ | ⟨-, hold⟩
  · obtain ⟨rfl, rfl⟩ := Prod.mk.inj hid
    refine ⟨now, issued_currentWindowID hw, ?_⟩
    rw [currentWindowID_window hw]
  · exact h.windows t' id row hold

theorem Store.Windowed.insertLimit {row : PolicyLimitRow}
    (hk : k.windowID = .total ∨ ∃ at_, k.windowID.Issued at_) :
    ({ s with policyLimits := s.policyLimits.insert k row } : Store).Windowed := by
  exact ⟨forall_insert h.limits hk, h.windows⟩

theorem Store.Windowed.openAllowance (k : AllowanceKey) : (s.openAllowance k).Windowed := by
  unfold Store.openAllowance
  split
  · exact h.congr rfl rfl
  · exact h

theorem Store.Windowed.rollWindow (row : PolicyLimitRow)
    (hk : currentWindowID now k.windowID.window ≠ .other "") :
    (s.rollWindow k row now).Windowed := by
  have hput := h.putWindow k.tenantID hk
  refine Store.Windowed.openAllowance ?_ _
  unfold Store.addPolicyLimit
  split
  · exact hput.insertLimit (.inr ⟨now, issued_currentWindowID hk⟩)
  · exact hput

/-! ### Resolving -/

/-- **An active window is the current one.** -/
theorem Store.Windowed.current_of_active (hnow : 0 ≤ now)
    (hid : id = .total ∨ ∃ at_, id.Issued at_) (hactive : windowActive s t id now = true) :
    id = .total ∨ id = currentWindowID now id.window := by
  rcases hid with htotal | ⟨at_, hissued⟩
  · exact .inl htotal
  right
  unfold windowActive at hactive
  rw [if_neg hissued.ne_total] at hactive
  rcases hrow : s.quotaWindows.lookup (t, id) with - | w
  · -- without a row only a minute window is active, by its own id
    rw [hrow] at hactive
    cases id with
    | minute start =>
      obtain ⟨hle, hlt⟩ := of_decide_eq_true hactive
      have hstart : start = at_.tdiv 60 * 60 := WindowID.minute.inj hissued.2
      refine hissued.2.trans (currentWindowID_of_bounds hnow ?_).symm
      show at_.tdiv 60 * 60 ≤ now ∧ now < at_.tdiv 60 * 60 + 60
      rw [← hstart]
      exact ⟨hle, hlt⟩
    | total | daily | monthly | other => simp at hactive
  · rw [hrow] at hactive
    obtain ⟨hle, hlt⟩ := of_decide_eq_true hactive
    obtain ⟨at', hissued', hbounds⟩ := h.windows t id w hrow
    refine hissued'.2.trans (currentWindowID_of_bounds hnow ?_).symm
    rw [← hbounds]
    exact ⟨hle, hlt⟩

/-- **A limit is counted under its current window.** -/
theorem Store.Windowed.resolvedWindow_eq (hnow : 0 ≤ now)
    (hk : k.windowID = .total ∨ ∃ at_, k.windowID.Issued at_) :
    resolvedWindow s k now = some (k.current now).windowID := by
  unfold resolvedWindow AllowanceKey.current
  rcases hk with htotal | ⟨at_, hissued⟩
  · have hactive : windowActive s k.tenantID k.windowID now = true := by
      unfold windowActive
      rw [if_pos htotal]
    rw [if_pos hactive, if_pos htotal, htotal]
  · rw [if_neg hissued.ne_total]
    split
    next hactive =>
      have hcurrent := (h.current_of_active hnow (.inr ⟨at_, hissued⟩) hactive).resolve_left
        hissued.ne_total
      rw [← hcurrent]
    next => rw [if_neg (hissued.current_ne now)]

end

/-- What an attempt needs of a counter. -/
def requiredUnits (p : AttemptPlan) : AllowanceKind → ℤ
  | .requests | .concurrency | .jobs | .other _ => 1
  | .tokens => p.inputBound.getD 0 + p.outputBound.getD 0
  | .cost => p.maximumCost.getD 0

/-- An allowance of the current window, with what the plan needs of its kind. -/
def Allowance.Current (p : AttemptPlan) (now : ℤ) (a : Allowance) : Prop :=
  (a.windowID = .total ∨ a.windowID = currentWindowID now a.windowID.window) ∧
    a.reserve = requiredUnits p a.kind

variable {p plan : AttemptPlan}

theorem requiredAmount_eq {unbounded : String} {kind : AllowanceKind} {amount : ℤ}
    (h : requiredAmount p unbounded kind 1 = .ok amount) : amount = requiredUnits p kind := by
  rcases requiredAmount_ok h with ⟨rfl, rfl⟩ | ⟨rfl, rfl⟩ | ⟨ht, hc, rfl⟩
  · rfl
  · rfl
  cases kind with
  | tokens => exact absurd rfl ht
  | cost => exact absurd rfl hc
  | requests | concurrency | jobs | other => rfl

/-- Resolving a row keeps the tables windowed: what is rolled over has a
current window. -/
theorem resolveRow_windowed (hs : s.Windowed) (h : Runs (resolveRow p now as e) s as' s') :
    s'.Windowed := by
  rcases resolveRow_cases h with ⟨-, -, rfl⟩ | ⟨wid, _, -, hwid, -, -, rfl⟩
  · exact hs
  split
  next => exact hs
  next hinactive =>
    refine hs.rollWindow _ fun hnone => ?_
    rw [resolvedWindow, if_neg hinactive, if_pos hnone] at hwid
    cases hwid

theorem resolveAllowances_windowed (hs : s.Windowed)
    (h : Runs (resolveAllowances p now) s plan s') : s'.Windowed := by
  obtain ⟨as, hloop, -⟩ := resolveAllowances_runs h
  refine runs_foldlM_inv (fun _ t => t.Windowed) hloop hs fun k _ as t as' t' ht hkey => ?_
  rcases resolveKey_cases hkey with ⟨-, -, rfl⟩ | ⟨row, -, hrow⟩
  · exact ht
  · exact resolveRow_windowed ht hrow

theorem resolveRow_current (hs : s.Windowed) (hnow : 0 ≤ now)
    (he : s.policyLimits.lookup e.1 = some e.2) (h : Runs (resolveRow p now as e) s as' s')
    (has : ∀ a ∈ as, a.Current p now) : ∀ a ∈ as', a.Current p now := by
  rcases resolveRow_cases h with ⟨-, rfl, -⟩ | ⟨wid, required, -, hwid, hrequired, rfl, -⟩
  · exact has
  refine List.forall_mem_append.2 ⟨has, List.forall_mem_singleton.2 ⟨?_, requiredAmount_eq hrequired⟩⟩
  have hwindow : wid.window = e.1.windowID.window := resolvedWindow_window hwid
  rw [hs.resolvedWindow_eq hnow (hs.limits _ _ he), AllowanceKey.current] at hwid
  show wid = .total ∨ wid = currentWindowID now wid.window
  rw [hwindow, ← Option.some.inj hwid]
  split
  · exact .inl rfl
  · exact .inr rfl

/-- **Every allowance of a plan is counted under its current window.** -/
theorem resolveAllowances_current (hs : s.Windowed) (hnow : 0 ≤ now)
    (h : Runs (resolveAllowances p now) s plan s') : ∀ a ∈ plan.allowances, a.Current p now := by
  obtain ⟨as, hloop, rfl⟩ := resolveAllowances_runs h
  refine (runs_foldlM_inv (fun as t => t.Windowed ∧ ∀ a ∈ as, a.Current p now) hloop
    ⟨hs, by simp⟩ fun k _ as t as' t' ⟨ht, has⟩ hkey => ?_).2
  rcases resolveKey_cases hkey with ⟨-, rfl, rfl⟩ | ⟨row, hlookup, hrow⟩
  · exact ⟨ht, has⟩
  · exact ⟨resolveRow_windowed ht hrow, resolveRow_current ht hnow hlookup hrow has⟩

/-! ### Synchronizing -/

/-- A dimension has a window that the clock gives out. -/
def Dimension.Windowed (d : Dimension) (now : ℤ) : Prop :=
  d.window = .total ∨ currentWindowID now d.window ≠ .other ""

theorem dimensions_windowed {limit : PolicyLimitData} (h : validPolicyLimit limit = true)
    (now : ℤ) : ∀ d ∈ limit.dimensions, d.Windowed now := by
  simp only [validPolicyLimit, Bool.and_eq_true, Bool.or_eq_true, beq_iff_eq] at h
  have hcost : (⟨.cost, limit.maxCost, if limit.costWindow = .other "" then .total
      else limit.costWindow⟩ : Dimension).Windowed now := by
    rcases h.2 with ((hnone | htotal) | hdaily) | hmonthly
    · exact .inl (if_pos hnone)
    · left
      show (if _ then _ else _) = _
      rw [htotal]
      rfl
    · exact .inr (by simp [hdaily, currentWindowID])
    · exact .inr (by simp [hmonthly, currentWindowID])
  intro d hd
  simp only [PolicyLimitData.dimensions, List.mem_cons, List.not_mem_nil, or_false] at hd
  rcases hd with rfl | rfl | rfl | rfl | rfl
  iterate 2 exact .inr (by simp [currentWindowID])
  iterate 2 exact .inl rfl
  exact hcost

theorem Store.Windowed.syncDimension (h : s.Windowed) (t : String) (limit : PolicyLimitData)
    {d : Dimension} (hd : d.Windowed now) : (Hoorific.syncDimension t limit now s d).Windowed := by
  unfold Hoorific.syncDimension
  split
  · exact h
  refine Store.Windowed.openAllowance ?_ _
  by_cases htotal : d.window = .total
  · have hid : (d.key t limit now).windowID = .total := if_pos htotal
    rw [if_pos htotal]
    exact h.insertLimit (.inl hid)
  have hcurrent := hd.resolve_left htotal
  have hid : d.windowID now = currentWindowID now d.window := if_neg htotal
  rw [if_neg htotal, hid]
  refine (h.putWindow t hcurrent).insertLimit (.inr ⟨now, ?_⟩)
  show (d.windowID now).Issued now
  rw [hid]
  exact issued_currentWindowID hcurrent

theorem Store.Windowed.synced (h : s.Windowed) (t id : String)
    (hnext : ∀ limit, next = some limit → validPolicyLimit limit = true) :
    (s.synced t id next now).Windowed := by
  have hunsynced : (s.unsynced t id).Windowed := by
    unfold Store.unsynced
    split
    · exact h
    split
    · exact h
    · exact h.fewer (fun k row hk => (lookup_deleteWhere_iff.1 hk).1) rfl
  rcases next with - | limit
  · exact hunsynced
  have hdims := dimensions_windowed (hnext limit rfl) now
  exact List.foldlRecOn limit.dimensions _ hunsynced fun _ hs d hd =>
    hs.syncDimension t limit (hdims d hd)

/-! ### Every transaction of the store -/

/-- The operation projects a limit onto the policy tables. -/
def Op.projects : Op → Bool
  | .sync _ _ _ _ => true
  | _ => false

/-- A transaction of the store: a change of the configuration, which projects
the limits it writes, or any other one. -/
inductive SystemOp where
  | mutate (platform : Platform) (order : MapOrder) (p : Principal) (m : Mutation) (now : ℤ)
  | apply (platform : Platform) (order : MapOrder) (p : Principal) (expected : ℤ)
      (candidate : Option Candidate) (prune : Bool) (clock : String → ℤ)
  | account (op : { op : Op // op.projects = false })

def SystemOp.step (s : Store) : SystemOp → Store
  | .mutate platform order p m now => (commit (Hoorific.mutate platform order p m now) s).2
  | .apply platform order p expected candidate prune clock =>
    (commit (applyConfig platform order p expected candidate prune clock) s).2
  | .account op => (op.1.execute s).2

/-- What holds of the store in every state of a run. -/
structure Store.Sound (s : Store) : Prop where
  wellFormed : WellFormed s
  windowed : s.Windowed

theorem Store.Sound.congr (h : s.Sound) (ha : s'.attempts = s.attempts)
    (hl : s'.policyLimits = s.policyLimits) (hw : s'.quotaWindows = s.quotaWindows) : s'.Sound :=
  ⟨h.wellFormed.of_attempts_eq ha, h.windowed.congr hl hw⟩

theorem Store.Sound.writeResource (h : s.Sound) (k : ResourceKey) (version : ℤ)
    (next : Option k.kind.Data) : (s.writeResource k version next).Sound := by
  cases next <;> exact h.congr rfl rfl rfl

theorem Store.Sound.synced (h : s.Sound) {id : String}
    (hnext : ∀ limit, next = some limit → validPolicyLimit limit = true) :
    (s.synced t id next now).Sound := by
  exact ⟨h.wellFormed.of_attempts_eq (policyOnly_synced s t id next now).attempts,
    h.windowed.synced t id hnext⟩

theorem Store.Sound.bumpRevision (h : s.Sound) : s.bumpRevision.Sound := h.congr rfl rfl rfl

theorem Store.Sound.mutate (h : s.Sound) {m : Mutation} {u : Unit}
    (hrun : Runs (Hoorific.mutate platform order principal m now) s u s') : s'.Sound := by
  obtain ⟨data, current, version, s₁, -, hdata, -, -, -, hsync, -, -, rfl⟩ := mutate_runs hrun
  refine Store.Sound.bumpRevision
    (Store.Sound.writeResource ?_ ⟨principal.tenantID, m.kind, m.id⟩ version data)
  rcases m with ⟨kind, id, expected, delete, submitted⟩
  cases kind with
  | policyLimits =>
    obtain rfl := syncPolicyLimit_eq hsync
    refine h.synced fun limit hlimit => ?_
    rcases validated_ok hdata with ⟨-, hnone⟩ | ⟨x, -, -, hvalid, hx⟩
    · rw [hnone] at hlimit
      cases hlimit
    · cases hlimit.symm.trans hx
      exact Check.require_ok.1 (hvalid .noRows)
  | apiKeys =>
    rw [syncKeyMetadataTx_runs hsync]
    exact h.congr rfl rfl rfl
  | connections | models | modelAliases | routePolicies | accountPools | prices =>
    obtain ⟨-, rfl⟩ := hsync
    exact h

theorem Store.Sound.apply (h : s.Sound) {expected out : ℤ} {candidate : Option Candidate}
    {prune : Bool} {clock : String → ℤ}
    (hrun : Runs (applyConfig platform order principal expected candidate prune clock) s out s') :
    s'.Sound := by
  obtain ⟨c, items, s₁, -, hitems, hloop, -, rfl⟩ := applyConfig_runs hrun
  have hpruned : (if prune = true then s.prune principal.tenantID else s).Sound := by
    split
    · exact ⟨h.wellFormed.of_attempts_eq rfl,
        h.windowed.fewer (fun k row hk => (lookup_deleteWhere_iff.1 hk).1) rfl⟩
    · exact h
  have hs₁ : s₁.Sound := by
    refine runs_forM_induct (fun _ t => t.Sound) hloop hpruned ?_
    intro done it t v t' hpre ht hitem
    obtain rfl := applyItem_runs hitem
    have hvalid := ((items_ok hitems).1 it
      (hpre.subset (List.mem_append_right _ List.mem_cons_self))).2.1
    refine Store.Sound.writeResource ?_ _ _ _
    rcases it with ⟨kind, id, data⟩
    cases kind with
    | policyLimits =>
      show (t.synced principal.tenantID id (some data) (clock id)).Sound
      refine ht.synced fun limit hlimit => ?_
      cases hlimit
      exact Check.require_ok.1 (hvalid .noRows)
    | connections | models | modelAliases | routePolicies | accountPools | prices | apiKeys =>
      exact ht
  exact hs₁.bumpRevision

theorem Store.Sound.execute (h : s.Sound) {op : Op} (hop : op.projects = false) :
    (op.execute s).2.Sound := by
  refine ⟨(execute_effect op h.wellFormed).wellFormed h.wellFormed, ?_⟩
  have hs := h.wellFormed
  refine commit_induct (P := Store.Windowed) h.windowed fun u s' hrun => ?_
  have hreplaced : ∀ {t t' : Store} {k row row'}, Replaced t t' k row row' → t.Windowed →
      t'.Windowed := by
    intro t t' k row row' hrep ht
    rw [hrep.frame]
    exact ht.congr rfl rfl
  cases op with
  | begin principal submitted now planNow =>
    simp only [Op.body, runs_bind, runs_pure] at hrun
    obtain ⟨permit, _, hbegin, -, rfl⟩ := hrun
    obtain ⟨plan, s₁, -, hres, -, -, ⟨rfl, -⟩ | ⟨_, held, _, s₂, -, hloop, rfl⟩⟩ :=
      beginAttempt_runs hbegin
    · exact resolveAllowances_windowed h.windowed hres
    have hs₁ := resolveAllowances_windowed h.windowed hres
    have hframe := (reserveAllowances_runs hloop).2.1.frame
    rw [hframe]
    exact hs₁.congr rfl rfl
  | accept permit ev savedAt =>
    rcases markAccepted_runs hs hrun with rfl | ⟨row, -, hrep, -⟩
    · exact h.windowed
    · exact hreplaced hrep h.windowed
  | finalize o chargedAt savedAt =>
    obtain ⟨row, -, ⟨-, rfl⟩ | ⟨-, hrep, -⟩⟩ := finalizeAttempt_runs hs hrun
    · exact h.windowed
    · exact hreplaced hrep h.windowed
  | reconcile principal admission expected request chargedAt savedAt =>
    simp only [Op.body, runs_bind, runs_pure] at hrun
    obtain ⟨out, _, hrec, -, rfl⟩ := hrun
    rcases reconcile_runs hs hrec with rfl | ⟨t, r, charge, row, hby⟩
    · exact h.windowed
    · exact hreplaced hby.replaced h.windowed
  | maintain now =>
    obtain ⟨s₁, hloop, hretired⟩ := runMaintenance_runs hs hrun
    have hs₁ : s₁.Windowed := by
      have hsweeps := hloop.reach
      clear hretired hloop
      induction hsweeps with
      | refl => exact h.windowed
      | tail _ hstep ih =>
        obtain ⟨k, row, hswept⟩ := hstep
        exact hreplaced hswept.replaced ih
    rw [hretired.frame]
    exact hs₁.congr rfl rfl
  | sync => cases hop
  | configure c =>
    simp only [Op.body, runs_modify] at hrun
    rw [← hrun]
    exact h.windowed.congr rfl rfl

/-- **Every state of a run is sound.** -/
theorem run_sound (ops : List SystemOp) : (run SystemOp.step {} ops).Sound := by
  refine run_inv_of_step ?_ ⟨wellFormed_empty, windowed_empty⟩ ops
  intro s op h
  rcases op with ⟨platform, order, p, m, now⟩ |
    ⟨platform, order, p, expected, candidate, prune, clock⟩ | op
  · exact commit_induct (P := Store.Sound) h fun _ _ hrun => h.mutate hrun
  · exact commit_induct (P := Store.Sound) h fun _ _ hrun => h.apply hrun
  · exact h.execute op.2

end Hoorific
