/-
The planner and admission compute the bounds of an attempt twice: the
planner from a snapshot and the body of the request, admission from the
stored resources and the plan alone.  Where they disagree, admission
answers `configuration_stale` and the gateway plans again; a disagreement
that does not come from a change would make the request unservable.

`BoundedBy` is what the planner establishes of a plan and a model
(`boundModel_boundedBy`), and what makes the checks of admission pass.  The
rest of the result goes through the failures of `BeginAttempt` one by one.
-/
import Hoorific.Store.Compiles
import Hoorific.Store.Planner

namespace Hoorific

open Check Tx

/-- The error that tells a caller to plan again. -/
def StoreError.stale : StoreError → Bool
  | .gateway code _ _ => code == "configuration_stale"
  | _ => false

/-! ### Bounds -/

/-- A plan agrees with the limits and the price of its model. -/
structure BoundedBy (p : AttemptPlan) (contextLimit outputLimit : Option ℤ)
    (price : Option PriceSchedule) : Prop where
  input : p.inputBound = contextLimit
  context : ∀ limit, contextLimit = some limit → 0 ≤ limit
  output : ∀ bound, p.outputBound = some bound →
    ∃ limit, outputLimit = some limit ∧ 0 ≤ bound ∧ bound ≤ limit
  price : checkPrice p price = .ok ()

variable {d : JsonDecoder} {out out' plan : AttemptPlan} {m : Model} {body : RequestBody}

/-- The token cost of the planner, or else the cost of a unit, is what
admission computes. -/
theorem planMaximumCost_of_boundTokenCost {input output cost : Option ℤ} {price : PriceSchedule}
    (h : boundTokenCost input output price = .ok cost) (operation : Operation) :
    planMaximumCost input output (some price) operation =
      .ok (cost <|> unitCost operation price) := by
  rcases input with - | i
  · cases h
    rfl
  rcases output with - | o
  · cases h
    rfl
  unfold boundTokenCost at h
  rcases hbound : estimateBound i o (some price) with (- | message) | bound
  all_goals simp only [hbound] at h
  · cases h
    simp [planMaximumCost, hbound, unitCost]
  · cases h
  · cases h
    simp [planMaximumCost, hbound]

theorem outputBound_le {limit maxTokens maxOutputTokens : Option ℤ} {bound : ℤ}
    (h : outputBound limit maxTokens maxOutputTokens = some bound) :
    ∃ l, limit = some l ∧ bound ≤ l := by
  obtain ⟨l, rfl, hbound⟩ := Option.map_eq_some_iff.1 h
  refine ⟨l, rfl, ?_⟩
  split at hbound
  next => exact hbound.ge
  next => split at hbound <;> omega

/-- **The planner's bounds agree with the model** they were taken from. -/
theorem boundModel_boundedBy (hinput : out.inputBound = none) (houtput : out.outputBound = none)
    (hcost : out.maximumCost = none) (hversion : out.priceVersion = "")
    (h : boundModel d out m body = .ok out') :
    BoundedBy out' m.contextLimit m.outputLimit m.price := by
  unfold boundModel at h
  rcases hmeta : outputMeta d body with - | ⟨maxTokens, maxOutputTokens⟩
  · rw [hmeta] at h
    cases h
  rw [hmeta] at h
  simp only [bind_ok, require_ok, Bool.not_eq_true', Bool.or_eq_false_iff] at h
  obtain ⟨-, ⟨hcontext, hbound⟩, h⟩ := h
  have hlimit : ∀ limit, m.contextLimit = some limit → 0 ≤ limit := by
    intro limit hl
    simpa [hl] using hcontext
  have hwithin : ∀ bound, outputBound m.outputLimit maxTokens maxOutputTokens = some bound →
      ∃ limit, m.outputLimit = some limit ∧ 0 ≤ bound ∧ bound ≤ limit := by
    intro bound hb
    obtain ⟨limit, hl, hle⟩ := outputBound_le hb
    exact ⟨limit, hl, by simpa [hb] using hbound, hle⟩
  have hin : (m.contextLimit <|> out.inputBound) = m.contextLimit := by
    rw [hinput]
    cases m.contextLimit <;> rfl
  have hout : (outputBound m.outputLimit maxTokens maxOutputTokens <|> out.outputBound) =
      outputBound m.outputLimit maxTokens maxOutputTokens := by
    rw [houtput]
    cases outputBound m.outputLimit maxTokens maxOutputTokens <;> rfl
  rcases hprice : m.price with - | price <;> rw [hprice] at h
  · cases h
    refine ⟨hin, hlimit, fun bound hb => hwithin bound (hout ▸ hb), ?_⟩
    simp [checkPrice, hcost, hversion]
  simp only at h
  split at h
  next =>
    obtain ⟨cost, hcharge, h⟩ := bind_ok.1 h
    cases h
    refine ⟨hin, hlimit, fun bound hb => hwithin bound (hout ▸ hb), ?_⟩
    -- admission estimates the same counts at the same price
    have hwant := planMaximumCost_of_boundTokenCost hcharge out.operation
    have hnone : (cost <|> out.maximumCost <|> unitCost out.operation price) =
        (cost <|> unitCost out.operation price) := by
      rw [hcost]
      rfl
    simp only [checkPrice, hin, hout, hnone, ne_eq, not_true_eq_false, if_false]
    split
    next => rfl
    next want hsome =>
      rw [hwant]
      simp [hsome]
  next =>
    cases h
    refine ⟨hin, hlimit, fun bound hb => hwithin bound (hout ▸ hb), ?_⟩
    simp [checkPrice, hcost]

/-! ### What admission checks -/

/-- The stored resources a plan was made for, as admission needs them. -/
structure Planned (s : Store) (p : AttemptPlan) : Prop where
  revision : s.revision = p.configRevision
  nonneg : 0 ≤ p.configRevision
  connection : ∃ r : Resource .connections, s.resource p.tenantID .connections p.connectionID = some r ∧
    ConnectionData.enabled r.data = true ∧ ConnectionData.connector r.data ≠ "" ∧
    p.accountID = ConnectionData.accountID r.data
  model : p.modelID ≠ "" → ∃ r : Resource .models,
    s.resource p.tenantID .models p.modelID = some r ∧
    BoundedBy p (ModelData.contextLimit r.data) (ModelData.outputLimit r.data) (ModelData.price r.data)

variable {s s' : Store} {p : AttemptPlan} {e : StoreError}

theorem checkConnection_planned (hp : Planned s p) (h : checkConnection s p = .error e) :
    e.stale = false := by
  unfold checkConnection at h
  split at h
  next =>
    cases h
    rfl
  next =>
    obtain ⟨r, hr, henabled, hconnector, haccount⟩ := hp.connection
    rw [hr] at h
    simp [henabled, hconnector, haccount] at h

theorem checkModel_planned (hp : Planned s p) (h : checkModel s p = .error e) :
    e.stale = false := by
  unfold checkModel at h
  split at h
  next => cases h
  next hmodel =>
    obtain ⟨r, hr, hagrees⟩ := hp.model hmodel
    rw [hr] at h
    simp only at h
    split at h
    next =>
      cases h
      rfl
    split at h
    next =>
      cases h
      rfl
    next =>
    split at h
    next hinput =>
      -- the input bound is the context limit
      rw [hagrees.input] at hinput
      rcases hlimit : ModelData.contextLimit r.data with - | limit
      · simp [hlimit] at hinput
      have hnonneg := hagrees.context limit hlimit
      simp [hlimit] at hinput
      omega
    next =>
    split at h
    next houtput =>
      rcases hbound : p.outputBound with - | bound
      · simp [hbound] at houtput
      obtain ⟨limit, hlimit, hnonneg, hle⟩ := hagrees.output bound hbound
      simp [hbound, hlimit] at houtput
      omega
    next =>
      rw [hagrees.price] at h
      cases h

variable {principal : Option Principal} {now : ℤ} {submitted : AttemptPlan}

theorem checkSession_fresh (h : checkSession s principal p now = .error e) : e.stale = false := by
  unfold checkSession at h
  repeat' split at h
  all_goals cases h <;> rfl

theorem checkKey_fresh (h : checkKey s p = .error e) : e.stale = false := by
  unfold checkKey at h
  repeat' split at h
  all_goals cases h <;> rfl

theorem validatePlan_fresh (h : validatePlan p = .error e) : e.stale = false := by
  unfold validatePlan at h
  repeat' split at h
  all_goals cases h <;> rfl

/-- The checks on a plan find it current. -/
theorem checkPlan_planned (hp : Planned s p) (h : checkPlan s principal p now = .error e) :
    e.stale = false := by
  have hrevision : ¬ (s.revision < 0 ∨ p.configRevision < 0 ∨ s.revision ≠ p.configRevision) := by
    rw [hp.revision]
    have := hp.nonneg
    omega
  have hresources : (checkConnection s p >>= fun _ => checkModel s p) = .error e →
      e.stale = false := by
    intro h
    rcases bind_error.1 h with h | ⟨-, -, h⟩
    · exact checkConnection_planned hp h
    · exact checkModel_planned hp h
  simp only [checkPlan, if_neg hrevision, bind_error] at h
  rcases h with h | ⟨-, -, h⟩
  · exact validatePlan_fresh h
  split at h
  next =>
    rcases bind_error.1 h with h | ⟨-, -, h⟩
    · exact checkSession_fresh h
    · exact hresources h
  next =>
    rcases bind_error.1 h with h | ⟨-, -, h⟩
    · exact checkKey_fresh h
    · exact hresources h

/-! ### Allowances -/

theorem requiredAmount_fresh {unbounded : String} {kind : AllowanceKind} {otherwise : ℤ}
    (h : requiredAmount p unbounded kind otherwise = .error e) : e.stale = false := by
  unfold requiredAmount at h
  repeat' split at h
  all_goals cases h <;> rfl

/-- A row of the policy table is there. -/
def Store.limited (s : Store) (k : AllowanceKey) : Prop := (s.policyLimits.lookup k).isSome = true

/-- Rolling a window adds a row for the current one and keeps the rows there are. -/
theorem limited_rollWindow (s : Store) (k k' : AllowanceKey) (row : PolicyLimitRow) (now : ℤ) :
    (s.rollWindow k row now).limited k' ↔ k' = k.rolled now ∨ s.limited k' := by
  rw [Store.limited, Store.limited, lookup_rollWindow]
  cases s.policyLimits.lookup k' <;> by_cases hk : k' = k.rolled now <;> simp [hk]

/-- Resolving a row drops no row, and what it adds to the plan has one. -/
theorem resolveRow_limited {as as' : List Allowance} {k : AllowanceKey} {row : PolicyLimitRow}
    (hk : k.tenantID = p.tenantID) (hrow : s.limited k)
    (h : Runs (resolveRow p now as (k, row)) s as' s')
    (has : ∀ a ∈ as, s.limited (a.key p.tenantID)) : ∀ a ∈ as', s'.limited (a.key p.tenantID) := by
  rcases resolveRow_cases h with ⟨-, rfl, rfl⟩ | ⟨wid, required, -, hw, -, rfl, rfl⟩
  · exact has
  unfold resolvedWindow at hw
  split at hw
  next hactive =>
    -- the window of the row itself
    cases hw
    rw [if_pos hactive]
    refine List.forall_mem_append.2 ⟨has, List.forall_mem_singleton.2 ?_⟩
    show s.limited ⟨p.tenantID, k.scopeKind, k.scopeID, k.windowID, k.kind⟩
    rw [← hk]
    exact hrow
  next hpast =>
    split at hw
    next => cases hw
    cases hw
    rw [if_neg hpast]
    refine List.forall_mem_append.2 ⟨fun a ha => ?_, List.forall_mem_singleton.2 ?_⟩
    · exact (limited_rollWindow s k _ row now).2 (.inr (has a ha))
    · refine (limited_rollWindow s k _ row now).2 (.inl ?_)
      rw [← hk]
      rfl

/-- **Every allowance of a derived plan is configured**, in the store that
deriving it leaves. -/
theorem resolveAllowances_limited (h : Runs (resolveAllowances p now) s plan s') :
    ∀ a ∈ plan.allowances, s'.limited (a.key p.tenantID) := by
  obtain ⟨as, hloop, rfl⟩ := resolveAllowances_runs h
  refine runs_foldlM_inv (fun as t => ∀ a ∈ as, t.limited (a.key p.tenantID)) hloop (by simp) ?_
  intro k hk as t as' t' has hkey
  rcases resolveKey_cases hkey with ⟨-, rfl, rfl⟩ | ⟨row, hlookup, hrow⟩
  · exact has
  · exact resolveRow_limited (tenantID_of_mem_cursorKeys hk) (Option.isSome_of_eq_some hlookup)
      hrow has

theorem resolveAllowances_fresh (h : Fails (resolveAllowances p now) s e) : e.stale = false := by
  simp only [resolveAllowances, fails_bind, fails_get, fails_pure, false_or, and_false,
    exists_false, or_false, runs_get] at h
  obtain ⟨_, _, ⟨rfl, rfl⟩, h⟩ := h
  obtain ⟨k, -, as, t, -, h⟩ := fails_foldlM (fun _ _ => True) h trivial
    fun _ _ _ _ _ _ _ _ => trivial
  simp only [resolveKey, fails_bind, fails_get, false_or, runs_get] at h
  obtain ⟨_, _, ⟨rfl, rfl⟩, h⟩ := h
  rcases hrow : t.policyLimits.lookup k with - | row <;> rw [hrow] at h
  · exact (fails_pure h).elim
  simp only [resolveRow, fails_ite, fails_pure, and_false, false_or, fails_bind,
    fails_get, runs_get] at h
  obtain ⟨-, _, _, ⟨rfl, rfl⟩, h⟩ := h
  rcases hw : resolvedWindow t k now with - | wid
  · simp [hw] at h
  simp only [hw, fails_bind, fails_modify, fails_liftE, fails_pure, and_false,
    exists_false, or_false, false_or] at h
  obtain ⟨-, -, -, h⟩ := h
  exact requiredAmount_fresh h

theorem reserveAllowance_fresh {seen : Bool} {held : List ℤ} {a : Allowance}
    (hlimited : s.limited (a.key p.tenantID))
    (h : Fails (reserveAllowance p seen now held a) s e) : e.stale = false := by
  simp only [reserveAllowance, fails_bind, fails_liftE, fails_ite, fails_pure,
    fails_get, fails_orFail, fails_require, runs_liftE, runs_get, runs_orFail,
    runs_require, and_false, false_or, exists_false, or_false] at h
  rcases h with h | ⟨amount, _, ⟨-, rfl⟩, -, _, _, ⟨rfl, rfl⟩, h⟩
  · exact requiredAmount_fresh h
  rcases h with ⟨hnone, -⟩ | ⟨limit, _, ⟨-, rfl⟩, h⟩
  · rw [Store.limited, hnone] at hlimited
    cases hlimited
  rcases h with ⟨-, rfl⟩ | ⟨_, _, ⟨-, rfl⟩, ⟨-, rfl⟩ | ⟨_, _, ⟨-, rfl⟩, h⟩⟩
  · rfl
  · rfl
  simp only [updateReserved, fails_bind, fails_get, fails_orFail, fails_require,
    fails_modify, runs_get, runs_orFail, false_or, and_false, exists_false,
    or_false] at h
  obtain ⟨_, _, ⟨rfl, rfl⟩, ⟨-, rfl⟩ | ⟨_, _, -, -, rfl⟩⟩ := h <;> rfl

theorem pinnedPrice_planned (hp : Planned s p) (h : pinnedPrice s p = .error e) :
    e.stale = false := by
  unfold pinnedPrice at h
  split at h
  next => cases h
  next hmodel =>
    obtain ⟨r, hr, hagrees⟩ := hp.model hmodel
    rw [hr] at h
    simp only at h
    split at h
    next => cases h
    next hversion =>
      -- the price the plan agrees with has its version
      exfalso
      apply hversion
      have hprice := hagrees.price
      rcases hsome : ModelData.price r.data with - | price
      · rfl
      rw [hsome] at hprice
      unfold checkPrice at hprice
      simp only at hprice
      split at hprice
      next => cases hprice
      next hsame =>
        simpa using hsame

theorem replayAttempt_fresh {row : AttemptRow} (h : Fails (replayAttempt row p submitted) s e) :
    e.stale = false := by
  simp only [replayAttempt, fails_bind, fails_require, fails_pure, and_false,
    exists_false, or_false] at h
  rcases h with ⟨-, rfl⟩ | ⟨-, -, -, -, rfl⟩ <;> rfl

theorem admitAttempt_planned {subject : String} (hp : Planned s p)
    (hlimited : ∀ a ∈ p.allowances, s.limited (a.key p.tenantID))
    (h : Fails (admitAttempt p submitted subject now) s e) : e.stale = false := by
  simp only [admitAttempt, fails_bind, fails_get, fails_liftE, fails_modify,
    fails_pure, runs_get, runs_liftE, false_or, and_false, exists_false, or_false] at h
  obtain ⟨_, _, ⟨rfl, rfl⟩, h | ⟨held, t, -, h⟩⟩ := h
  · obtain ⟨a, ha, held, t, ht, hfails⟩ := fails_foldlM
      (fun _ t => t.policyLimits = s.policyLimits) h rfl (by
        intro a _ c t c' t' ht hstep
        obtain ⟨_, -, -, hframe, -⟩ := reserveAllowance_runs hstep
        rw [hframe.frame]
        exact ht)
    refine reserveAllowance_fresh ?_ hfails
    rw [Store.limited, ht]
    exact hlimited a ha
  · exact pinnedPrice_planned hp h

/-- The configuration of `s'` is that of `s`: the revision, and the resources a
configuration consists of. -/
structure Unchanged (s s' : Store) : Prop where
  revision : s'.revision = s.revision
  resources : ∀ tenant kind id, ResourceKind.configured kind = true →
    s'.resource tenant kind id = s.resource tenant kind id

/-- What a plan was made for does not depend on its allowances, nor on the
other tables. -/
theorem Planned.of_unchanged (hp : Planned s p) (h : Unchanged s s') (as : List Allowance) :
    Planned s' { p with allowances := as } := by
  refine ⟨h.revision.trans hp.revision, hp.nonneg, ?_, ?_⟩
  · obtain ⟨r, hr, hrest⟩ := hp.connection
    exact ⟨r, (h.resources _ .connections _ rfl).trans hr, hrest⟩
  · intro hmodel
    obtain ⟨r, hr, hagrees⟩ := hp.model hmodel
    exact ⟨r, (h.resources _ .models _ rfl).trans hr, hagrees.input, hagrees.context,
      hagrees.output, hagrees.price⟩

theorem PolicyOnly.unchanged (h : PolicyOnly s s') : Unchanged s s' := by
  rw [h.frame]
  exact ⟨rfl, fun _ _ _ _ => rfl⟩

/-- **Admission does not find a plan stale** in the store it was made for. -/
theorem beginAttempt_planned {planNow : ℤ} (hp : Planned s p)
    (h : Fails (beginAttempt principal p now planNow) s e) : e.stale = false := by
  simp only [beginAttempt, fails_bind, fails_liftE, fails_require, fails_get,
    runs_liftE, runs_require, runs_get, false_or] at h
  rcases h with h | ⟨-, _, ⟨-, rfl⟩, ⟨-, rfl⟩ | ⟨-, _, ⟨-, rfl⟩, h⟩⟩
  · exact validatePlan_fresh h
  · rfl
  rcases h with h | ⟨plan, t, hderive, _, _, ⟨rfl, rfl⟩, h⟩
  · simp only [derivePlanTx, fails_bind, fails_get, fails_liftE, runs_get,
      runs_liftE, false_or] at h
    obtain ⟨_, _, ⟨rfl, rfl⟩, h | ⟨-, _, ⟨-, rfl⟩, h⟩⟩ := h
    · exact checkPlan_planned hp h
    · exact resolveAllowances_fresh h
  · obtain ⟨-, hres, hpolicy, hplan⟩ := derivePlanTx_runs hderive
    have hplanned : Planned t plan := by
      rw [hplan]
      exact hp.of_unchanged hpolicy.unchanged _
    have htenant : plan.tenantID = p.tenantID := by rw [hplan]
    rcases h with ⟨-, rfl⟩ | ⟨-, _, ⟨-, rfl⟩, ⟨hrevision, -⟩ | ⟨-, _, ⟨-, rfl⟩, h⟩⟩
    · rfl
    · have hsame := hplanned.revision
      simp [hsame] at hrevision
    rcases hrow : t.attempts.lookup ⟨plan.tenantID, plan.attemptID⟩ with - | row
    all_goals rw [hrow] at h
    · refine admitAttempt_planned hplanned ?_ h
      rw [htenant]
      exact resolveAllowances_limited hres
    · exact replayAttempt_fresh h

/-! ### What the planner reads -/

variable {platform : Platform} {tenant : String} {caller : Principal} {snap : RuntimeSnapshot}
  {target : Target} {op : Operation} {input : AttemptPlan} {t : PlanTarget}

/-- A target is on a connection of the snapshot, and keeps its account. -/
theorem planTarget_connection (h : planTarget d caller snap target op body out = .ok (out', t)) :
    ∃ c, snap.connections.lookup t.connection = some c ∧ c.tenantID = caller.tenantID ∧
      t.account = c.accountID := by
  have hcurrent : ∀ {c current : Connection}, checkSnapshotConnection caller snap c = .ok current →
      snap.connections.lookup c.id = some current ∧ current.tenantID = caller.tenantID := by
    intro c current h
    unfold checkSnapshotConnection at h
    split at h
    next => cases h
    next found hfound =>
      split at h
      next => cases h
      next hsame =>
        cases h
        simp only [not_or, not_not] at hsame
        exact ⟨hfound, hsame.1⟩
  cases target with
  | modelCall c m name =>
    simp only [planTarget, bind_ok, require_ok] at h
    obtain ⟨-, -, current, hsnap, h⟩ := h
    rcases hmodel : snap.models.lookup m.catalogID with - | model <;> rw [hmodel] at h
    · cases h
    simp only [bind_ok, require_ok, pure_ok, Prod.mk.injEq] at h
    obtain ⟨-, -, -, -, -, -, -, -, -, rfl⟩ := h
    obtain ⟨hlookup, htenant⟩ := hcurrent hsnap
    exact ⟨current, hlookup, htenant, rfl⟩
  | connectionResourceCall c =>
    simp only [planTarget, bind_ok, require_ok, pure_ok, Prod.mk.injEq] at h
    obtain ⟨-, -, current, hsnap, -, rfl⟩ := h
    obtain ⟨hlookup, htenant⟩ := hcurrent hsnap
    exact ⟨current, hlookup, htenant, rfl⟩
  | nilModelCall | nilConnectionResourceCall | other => cases h

/-- **A plan of a snapshot is planned** on the store the snapshot was read from. -/
theorem planAttempt_planned (haccepted : s.Accepted platform tenant)
    (hsnap : snapshotOf platform s tenant = .ok snap) (hinput : input.inputBound = none)
    (houtput : input.outputBound = none)
    (h : planAttempt d caller snap target op body input = .ok plan)
    (henabled : ∀ c, snap.connections.lookup plan.connectionID = some c → c.disabled = false) :
    Planned s plan := by
  obtain rfl := snapshotOf_eq hsnap
  simp only [planAttempt, bind_ok, require_ok, pure_ok] at h
  obtain ⟨-, -, -, -, -, hrevision, -, -, ⟨out, t⟩, htarget, -, -, -, -, rfl⟩ := h
  obtain ⟨c, hc, htenant, haccount⟩ := planTarget_connection htarget
  obtain ⟨r, hr, rfl⟩ := runtimeConnections_lookup.1 hc
  have hon := (disabled_runtime (r.data : ConnectionData) t.connection r.version).symm.trans
    (henabled _ hc)
  have hvalid := (haccepted.resources .connections t.connection r.data rfl
    (Option.map_eq_some_iff.2 ⟨r, hr, rfl⟩)).2 invalidConfiguration
  simp only [validateData, validateConnection, bind_ok, require_ok, Bool.and_eq_true] at hvalid
  obtain ⟨-, ⟨hconnector, -⟩, -⟩ := hvalid
  -- the fields the planner does not touch are those of the bound plan
  have hbase : out.tenantID = tenant ∧ out.configRevision = s.revision := by
    have hcaller : caller.tenantID = tenant := htenant.symm
    rcases planTarget_ok htarget with ⟨m, -, hbound⟩ | ⟨-, rfl⟩
    · rw [(boundModel_ok hbound).1]
      exact ⟨hcaller, rfl⟩
    · exact ⟨hcaller, rfl⟩
  obtain ⟨htenantID, hconfig⟩ := hbase
  refine ⟨hconfig.symm, ?_, ⟨r, ?_, ?_, ne_empty_of_validRef hconnector, haccount⟩, ?_⟩
  · show 0 ≤ out.configRevision
    rw [hconfig]
    exact of_decide_eq_true hrevision
  · show s.resource out.tenantID .connections t.connection = some r
    rw [htenantID]
    exact hr
  · simp only [Bool.or_eq_false_iff, Bool.not_eq_false'] at hon
    exact hon.1
  · intro hmodel
    rcases planTarget_ok htarget with ⟨m, hm, hbound⟩ | ⟨hnone, -⟩
    · obtain ⟨r', hr', -, rfl⟩ := runtimeModels_lookup.1 (runtimeView_models.1 hm).1
      have hagrees := boundModel_boundedBy (by exact hinput) (by exact houtput) rfl rfl hbound
      refine ⟨r', ?_, hagrees.input, hagrees.context, hagrees.output, hagrees.price⟩
      show s.resource out.tenantID .models t.model = some r'
      rw [htenantID]
      exact hr'
    · exact absurd hnone hmodel

/-! ### Agreement -/

/-- **Planner and admission agree**: what is planned on a snapshot of a stored
configuration, for an enabled connection and without bounds of the caller,
is not stale when it is admitted on the same configuration, whatever the
other tables hold by then. -/
theorem planned_attempt_not_stale (platform : Platform) (ops : List ConfigOp) (reader : Principal)
    (resolve : Bool) (snap : RuntimeSnapshot)
    (hsnap : snapshot platform (configuredBy platform ops) reader resolve = .ok snap)
    (d : JsonDecoder) (caller : Principal) (target : Target) (op : Operation) (body : RequestBody)
    (input plan : AttemptPlan) (hinput : input.inputBound = none)
    (houtput : input.outputBound = none)
    (hplan : planAttempt d caller snap target op body input = .ok plan)
    (henabled : ∀ c, snap.connections.lookup plan.connectionID = some c → c.disabled = false)
    (s : Store) (hs : Unchanged (configuredBy platform ops) s) (principal : Option Principal)
    (now planNow : ℤ) (e : StoreError)
    (hfails : (commit (beginAttempt principal plan now planNow) s).1 = .error e) :
    e.stale = false := by
  obtain ⟨q, -, hread⟩ := bind_ok.1 hsnap
  have haccepted := (configuredBy_accepted platform ops).1 q.tenantID
  have hplanned := planAttempt_planned haccepted hread hinput houtput hplan henabled
  exact beginAttempt_planned (hplanned.of_unchanged hs _) (commit_error_iff.1 hfails)

/-- The administrator's key of the sample tenant. -/
def adminCaller : Principal :=
  { tenantID := "t", subjectID := "k", keyID := "k", keyRevision := 1, role := .admin }

/-- The sample model with limits and a price. -/
def costedModel : ModelData :=
  { sampleModel with
    contextLimit := some 100, outputLimit := some 50
    price := some
      { version := "v", inputPerMillion := some 3000000, outputPerMillion := some 15000000 } }

/-- The model gets its price, and the tenant a limit on its cost. -/
def costLimited : List ConfigOp :=
  aliasedModel ++ [ownerPut .models "m" 1 costedModel,
    ownerPut .policyLimits "l" 0
      ({ scope := .tenant, scopeID := "t", maxCost := 1000, costWindow := .daily } :
        PolicyLimitData)]

/-- A call of the model through its alias. -/
def pricedCall : Target :=
  .modelCall (sampleConnection.runtime "t" "c" 1) (costedModel.runtime "m" 2) "a"

def sampleInput : AttemptPlan :=
  { tenantID := "", requestID := "r", attemptID := "x", deadline := Time.ofUnix 1000 }

/-- The plan of that call. -/
def pricedPlan : AttemptPlan :=
  { sampleInput with
    tenantID := "t", keyID := "k", connectionID := "c", accountID := "acct", modelID := "m"
    keyRevision := 1, configRevision := 5, operation := "generate", «alias» := "a"
    priceVersion := "v", inputBound := some 100, outputBound := some 50, maximumCost := some 1050 }

/-- The configuration, with the key of the caller. -/
def costLimitedStore : Store :=
  { configuredBy samplePlatform costLimited with
    apiKeys := AList.singleton ("t", "k") ⟨1, false⟩
    resources := (configuredBy samplePlatform costLimited).resources.insert ⟨"t", .apiKeys, "k"⟩
      (⟨1, ({ permissions := ["*"], role := .admin } : KeyData)⟩ : Resource .apiKeys) }

/-- Its cost is above the limit: it is refused, but not as stale. -/
theorem costly_attempt_not_stale : ∃ e,
    (commit (beginAttempt none pricedPlan 0 0) costLimitedStore).1 = .error e ∧
      e.stale = false := by
  refine ⟨problem "quota_exceeded" 429 "required allowance exceeds current policy",
    by decide +kernel, planned_attempt_not_stale samplePlatform costLimited ownerPrincipal false
      ((configuredBy samplePlatform costLimited).runtimeView "t")
      (snapshotOf_accepted ((configuredBy_accepted samplePlatform costLimited).1 "t"))
      ⟨fun _ _ => false, fun _ => true⟩ adminCaller pricedCall "generate" .empty sampleInput
      pricedPlan rfl rfl (by decide +kernel) (fun c hc => ?_) costLimitedStore
      ⟨rfl, fun _ kind _ hkind => ?_⟩ none 0 0 _ (by decide +kernel)⟩
  · cases hc
    rfl
  · -- a key is not part of a configuration
    exact AList.lookup_insert_ne fun heq => by
      cases heq
      cases hkind

end Hoorific
