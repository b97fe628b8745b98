/-
What a settled attempt holds.  Settlement sets every hold at once: capacity
is given back, a cost hold becomes the cost that is charged, and a token
hold becomes the total of the usage; an outcome that lacks the cost or the
total which the plan needs does not settle the attempt.  An attempt that
was not executed holds nothing.

Settlement charges an attempt only if no charge is known yet.  The charge
is the cost of the outcome because an attempt under way is uncharged
(`AttemptRow.Accounted`), which a job handed over with a cost would break.

The ledger keeps rows longer than the store keeps attempts.  An id that is
used again finds the rows of the attempt deleted under it, so an attempt
has rows it did not cause; `SettlementStep` excludes this.
-/
import Hoorific.Store.Lifecycle

namespace Hoorific

/-! ### Holds -/

/-- Every allowance of an attempt, with what is held of it. -/
def AttemptEnvelope.holdings (env : AttemptEnvelope) : List (Allowance × ℤ) :=
  env.plan.allowances.zip env.held

/-- The cost of the outcome. -/
def AttemptEnvelope.actualCost (env : AttemptEnvelope) : Option ℤ :=
  env.outcome.bind AttemptOutcome.actualCost

/-- The total of the outcome's usage, as `normalizeUsage` finds it. -/
def AttemptEnvelope.usageTotal (env : AttemptEnvelope) : Option ℤ :=
  match normalizeUsage (env.outcome.bind AttemptOutcome.usage) with
  | (some u, true, true) => u.total
  | _ => none

/-- Nothing is held of an allowance that counts running attempts or jobs. -/
def AttemptEnvelope.CapacityReturned (env : AttemptEnvelope) : Prop :=
  ∀ e ∈ env.holdings, e.1.kind = .concurrency ∨ e.1.kind = .jobs → e.2 = 0

instance (env : AttemptEnvelope) : Decidable env.CapacityReturned :=
  inferInstanceAs (Decidable (∀ e ∈ env.holdings, _))

/-- **Exactly settled**: no capacity is held, what is held of a cost is what was
charged and what the outcome says, and what is held of tokens is the total
of the usage. -/
structure AttemptEnvelope.ExactlySettled (env : AttemptEnvelope) : Prop where
  capacity : env.CapacityReturned
  cost : ∀ e ∈ env.holdings, e.1.kind = .cost →
    e.2 = env.chargedCost ∧ env.actualCost = some e.2
  tokens : ∀ e ∈ env.holdings, e.1.kind = .tokens → env.usageTotal = some e.2

/-- A hold that was moved has an allowance and a hold it was moved from. -/
theorem mem_zip_zipWith {α β γ : Type*} {f : α → β → γ} {a : α} {c : γ} :
    ∀ {l : List α} {l' : List β}, (a, c) ∈ l.zip (List.zipWith f l l') →
      ∃ b, (a, b) ∈ l.zip l' ∧ c = f a b
  | [], _, h => absurd h List.not_mem_nil
  | _ :: _, [], h => absurd h List.not_mem_nil
  | x :: l, y :: l', h => by
    rcases List.mem_cons.1 h with hhead | htail
    · obtain ⟨rfl, rfl⟩ := Prod.mk.inj hhead
      exact ⟨y, List.mem_cons_self, rfl⟩
    · obtain ⟨b, hb, rfl⟩ := mem_zip_zipWith htail
      exact ⟨b, List.mem_cons_of_mem _ hb, rfl⟩

variable {env : AttemptEnvelope} {e : Allowance × ℤ} {u : Usage} {o : AttemptOutcome} {op : Op}

theorem mem_holdings_of_moved {env' : AttemptEnvelope} {f : Allowance → ℤ → ℤ}
    (hplan : env'.plan = env.plan) (hheld : env'.held = List.zipWith f env.plan.allowances env.held)
    (hmem : e ∈ env'.holdings) : ∃ g, (e.1, g) ∈ env.holdings ∧ e.2 = f e.1 g := by
  rw [AttemptEnvelope.holdings, hplan, hheld] at hmem
  exact mem_zip_zipWith hmem

/-! ### Evidence -/

theorem normalizeUsage_some (u : Usage) : normalizeUsage (some u) =
    if u.negative = true then (none, false, false) else u.totalled := rfl

theorem negative_withTotal {n : ℤ} (h : u.negative = false) (hn : 0 ≤ n) :
    ({ u with total := some n } : Usage).negative = false := by
  simp only [Usage.negative, List.any_cons, List.any_nil, Bool.or_eq_false_iff, Option.any_some,
    decide_eq_false_iff_not, not_lt] at h ⊢
  exact ⟨h.1, h.2.1, hn, h.2.2.2⟩

/-- A total that is known stands in the usage, where it is found again. -/
theorem totalled_known (h : u.totalled.2.2 = true) (hvalid : u.negative = false) :
    ∃ v total, u.totalled = (some v, true, true) ∧ v.total = some total ∧ v.negative = false ∧
      v.totalled = (some v, true, true) := by
  rcases htotal : u.total with - | total
  · -- it is the sum of input and output
    rcases hin : u.input with - | i
    · simp [Usage.totalled, hin, htotal] at h
    rcases hout : u.output with - | o
    · simp [Usage.totalled, hin, hout, htotal] at h
    rcases hsum : checkedAdd i o with e | sum
    · simp [Usage.totalled, hin, hout, hsum] at h
    obtain ⟨hi, ho, -, rfl⟩ := checkedAdd_ok_iff.1 hsum
    refine ⟨{ u with total := some (i + o) }, i + o, ?_, rfl,
      negative_withTotal hvalid (add_nonneg hi ho), ?_⟩
    · simp [Usage.totalled, hin, hout, hsum, htotal]
    · simp [Usage.totalled, hin, hout, hsum]
  · have hself : u.totalled = (some u, true, u.totalled.2.2) := by
      unfold Usage.totalled
      split
      next => split <;> simp_all
      next => rfl
    rw [h] at hself
    exact ⟨u, total, hself, htotal, hvalid, hself⟩

/-- A usage whose total is known: normalizing it again changes nothing. -/
theorem normalizeUsage_known {u : Option Usage} (h : (normalizeUsage u).2.2 = true) :
    ∃ v total, (normalizeUsage u).1 = some v ∧ v.total = some total ∧
      normalizeUsage (some v) = (some v, true, true) := by
  rcases u with - | u
  · cases h
  rw [normalizeUsage_some] at h ⊢
  rcases hvalid : u.negative with - | -
  · rw [hvalid, if_neg Bool.false_ne_true] at h
    obtain ⟨v, total, hu, htotal, hvalid', hv⟩ := totalled_known h hvalid
    refine ⟨v, total, ?_, htotal, ?_⟩
    · rw [if_neg Bool.false_ne_true, hu]
    · rw [normalizeUsage_some, hvalid', if_neg Bool.false_ne_true, hv]
  · rw [hvalid, if_pos rfl] at h
    cases h

theorem evidence_usage (env : AttemptEnvelope) (o : AttemptOutcome) :
    (evidence env o).usage = (normalizeUsage o.usage).1 ∧
      (evidence env o).totalKnown = (normalizeUsage o.usage).2.2 ∧
      (evidence env o).actualCost = (rawEvidence env o).actualCost := by
  simp only [evidence]
  split <;> exact ⟨rfl, rfl, rfl⟩

theorem evidence_jobPending (hnext : (evidence env o).next = .jobPending)
    (hcost : o.requested = .jobPending → o.actualCost = none) :
    (evidence env o).actualCost = none := by
  have hreq : o.requested = .jobPending := by
    rcases evidence_next_cases env o with h | ⟨-, h⟩
    · exact h.symm.trans hnext
    · rw [hnext] at h
      cases h
  rw [(evidence_usage env o).2.2]
  simp [rawEvidence, hcost hreq, hreq]

/-- An outcome that settles has the cost and the total that the plan needs. -/
theorem evidence_settled (hnext : (evidence env o).next = .settled) :
    (env.plan.needs .cost = true → (evidence env o).actualCost.isSome = true) ∧
      (env.plan.needs .tokens = true → (evidence env o).totalKnown = true) := by
  unfold evidence at hnext ⊢
  simp only at hnext ⊢
  split at hnext
  next => cases hnext
  next hdemoted =>
    rw [if_neg hdemoted]
    simp only [Evidence.demoted, hnext, beq_self_eq_true, Bool.true_and, Bool.or_eq_true,
      Bool.and_eq_true, Bool.not_eq_true', not_or, not_and, Bool.not_eq_false] at hdemoted
    refine ⟨fun hneeds => ?_, hdemoted.2⟩
    have hknown := hdemoted.1 hneeds
    simp only [Evidence.costKnown, Bool.and_eq_true] at hknown
    exact hknown.2

/-! ### One attempt -/

/-- The attempt is under way. -/
def AttemptState.live (state : AttemptState) : Prop :=
  state = .dispatchIntent ∨ state = .accepted ∨ state = .jobPending

/-- What is known of an attempt by its state: while it is under way there is no
charge, and its holds are exact once it is settled or not executed. -/
structure AttemptRow.Accounted (row : AttemptRow) : Prop where
  uncharged : row.state.live → row.data.completed.chargedCostKnown = false
  settled : row.state = .settled → row.data.ExactlySettled
  released : row.state = .notExecuted → ∀ h ∈ row.data.held, h = 0

variable {s : Store} {k : AttemptKey} {row row' : AttemptRow} {o : AttemptOutcome} {t : ℤ}

theorem mem_holdings_finalized (hv : row.Valid k)
    (hmem : e ∈ (finalizedRow row o t).data.holdings) :
    ∃ g, (e.1, g) ∈ row.data.holdings ∧ e.2 = holdTarget (evidence row.data.completed o) e.1 g :=
  mem_holdings_of_moved (finalizedRow_plan row o t) (finalizedRow_held hv o t) hmem

theorem finalizedRow_settled_capacity (hv : row.Valid k)
    (hnext : (evidence row.data.completed o).next = .settled) :
    (finalizedRow row o t).data.CapacityReturned := by
  intro e hmem hkind
  obtain ⟨g, -, htarget⟩ := mem_holdings_finalized hv hmem
  rw [htarget]
  rcases hkind with hkind | hkind <;> simp [holdTarget, hnext, hkind]

/-- Settling an uncharged attempt is exact. -/
theorem finalizedRow_settled (hv : row.Valid k)
    (huncharged : row.data.completed.chargedCostKnown = false)
    (hnext : (evidence row.data.completed o).next = .settled) :
    (finalizedRow row o t).data.ExactlySettled := by
  obtain ⟨hcost, htokens⟩ := evidence_settled hnext
  have hneeds : ∀ a ∈ row.data.plan.allowances, row.data.completed.plan.needs a.kind = true :=
    fun a ha => List.any_eq_true.2 ⟨a, ha, beq_self_eq_true _⟩
  refine ⟨finalizedRow_settled_capacity hv hnext, ?_, ?_⟩
  · intro e hmem hkind
    obtain ⟨g, hg, htarget⟩ := mem_holdings_finalized hv hmem
    have hneed := hneeds e.1 (List.of_mem_zip hg).1
    obtain ⟨cost, hsome⟩ := Option.isSome_iff_exists.1 (hcost (hkind ▸ hneed))
    have hcharge := finalizedRow_charge row o t
    rw [AttemptEnvelope.charges, if_pos ⟨.inl hnext, huncharged⟩, hsome] at hcharge
    obtain rfl : e.2 = cost := by
      rw [htarget]
      simp [holdTarget, hnext, hkind, hsome]
    exact ⟨hcharge.1.symm, hsome⟩
  · intro e hmem hkind
    obtain ⟨g, hg, htarget⟩ := mem_holdings_finalized hv hmem
    have hneed := hneeds e.1 (List.of_mem_zip hg).1
    obtain ⟨husage, hknown, -⟩ := evidence_usage row.data.completed o
    have htotalKnown := htokens (hkind ▸ hneed)
    obtain ⟨v, total, hv, htotal, hsame⟩ := normalizeUsage_known (hknown ▸ htotalKnown)
    have hstored : (finalizedRow row o t).data.outcome.bind AttemptOutcome.usage = some v := by
      show (evidence row.data.completed o).usage = some v
      rw [husage, hv]
    rw [AttemptEnvelope.usageTotal, hstored, hsame]
    show v.total = some e.2
    rw [htarget]
    simp [holdTarget, hnext, hkind, husage, hv, htotal, htotalKnown]

theorem finalizedRow_notExecuted (hv : row.Valid k)
    (hnext : (evidence row.data.completed o).next = .notExecuted) :
    ∀ h ∈ (finalizedRow row o t).data.held, h = 0 := by
  intro h hmem
  rw [finalizedRow_held hv, ← List.map_uncurry_zip_eq_zipWith] at hmem
  obtain ⟨⟨a, g⟩, -, rfl⟩ := List.mem_map.1 hmem
  simp [holdTarget, hnext]

theorem completed_chargedCostKnown (env : AttemptEnvelope) :
    env.completed.chargedCostKnown = false ↔
      env.chargedCostKnown = false ∧ env.chargedCost = 0 ∧ env.actualCost = none := by
  rcases hout : env.outcome with - | outcome
  · simp [AttemptEnvelope.completed, AttemptEnvelope.actualCost, hout]
  · simp [AttemptEnvelope.completed, AttemptEnvelope.actualCost, hout, and_assoc]

theorem finalizedRow_jobPending (huncharged : row.data.completed.chargedCostKnown = false)
    (hnext : (evidence row.data.completed o).next = .jobPending)
    (hcost : o.requested = .jobPending → o.actualCost = none) :
    (finalizedRow row o t).data.completed.chargedCostKnown = false := by
  have hnone := evidence_jobPending hnext hcost
  have hcharge := finalizedRow_charge row o t
  rw [AttemptEnvelope.charges, if_neg (by simp [hnext])] at hcharge
  obtain ⟨-, hzero, -⟩ := (completed_chargedCostKnown _).1 huncharged
  refine (completed_chargedCostKnown _).2 ⟨hcharge.2.trans huncharged, hcharge.1.trans hzero, ?_⟩
  exact hnone

/-- A step of a run with regular settlements: a job is handed over without a
cost, and a new attempt takes an id without rows in the ledger. -/
def SettlementStep (s : Store) : Op → Prop
  | .begin _ plan _ _ => (⟨plan.tenantID, plan.attemptID⟩ : AttemptKey) ∉ s.attempts →
      s.ledgerRows ⟨plan.tenantID, plan.attemptID⟩ = []
  | .finalize o _ _ => o.requested = .jobPending → o.actualCost = none
  | _ => True

theorem accounted_of_live (hlive : row.state.live)
    (huncharged : row.data.completed.chargedCostKnown = false) : row.Accounted := by
  refine ⟨fun _ => huncharged, ?_, ?_⟩
  all_goals
    intro hstate
    rw [hstate] at hlive
    rcases hlive with h | h | h <;> cases h

theorem accounted_of_unknown (hstate : row.state = .outcomeUnknown) : row.Accounted := by
  refine ⟨?_, ?_, ?_⟩
  · rw [hstate]
    rintro (h | h | h) <;> cases h
  · intro h
    cases hstate.symm.trans h
  · intro h
    cases hstate.symm.trans h

/-- A finalized attempt is under way only as a job. -/
theorem evidence_live (hterminal : o.requested.terminal = true) (hlive : (evidence env o).next.live)
    : (evidence env o).next = .jobPending := by
  rcases evidence_next_cases env o with h | ⟨-, h⟩
  · rcases hlive with hdispatch | haccepted | hjob
    · rw [← h, hdispatch] at hterminal
      cases hterminal
    · rw [← h, haccepted] at hterminal
      cases hterminal
    · exact hjob
  · rw [h] at hlive
    rcases hlive with hlive | hlive | hlive <;> cases hlive

/-- **Step**: what one operation keeps of a row. -/
theorem RowChange.accounted {r : Option AttemptRow} (h : RowChange s k op r (some row'))
    (hc : SettlementStep s op) (hold : ∀ row, r = some row → row.Valid k ∧ row.Accounted) :
    row'.Accounted := by
  cases h with
  | kept => exact (hold row' rfl).2
  | admitted => exact accounted_of_live (.inl rfl) rfl
  | @accepted permit ev savedAt row hstate =>
    have huncharged := (hold row rfl).2.uncharged (.inl hstate)
    obtain ⟨-, hzero, hnone⟩ := (completed_chargedCostKnown _).1 huncharged
    refine accounted_of_live (.inr (.inl rfl)) ?_
    exact (completed_chargedCostKnown _).2 ⟨huncharged, hzero, hnone⟩
  | @finalized o chargedAt savedAt row hfin hterminal =>
    obtain ⟨hv, hacc⟩ := hold row rfl
    have huncharged := hacc.uncharged (finalizable_states hfin)
    refine ⟨?_, ?_, ?_⟩
    · intro hlive
      exact finalizedRow_jobPending huncharged (evidence_live hterminal hlive) hc
    · exact fun hnext => finalizedRow_settled hv huncharged hnext
    · exact fun hnext => finalizedRow_notExecuted hv hnext
  | reconciled | swept => exact accounted_of_unknown rfl

/-! ### Runs -/

/-- What a run with regular settlements keeps. -/
structure Store.Accounted (s : Store) : Prop where
  wellFormed : WellFormed s
  rows : ∀ k row, s.attempts.lookup k = some row → row.Accounted
  ledger : ∀ k row, s.attempts.lookup k = some row → row.state ≠ .settled →
    row.state ≠ .outcomeUnknown → s.ledgerRows k = []

/-- A row that is neither settled nor unknown was neither before. -/
theorem RowChange.unposted (h : RowChange s k op (some row) (some row'))
    (hsettled : row'.state ≠ .settled) (hunknown : row'.state ≠ .outcomeUnknown) :
    row.state ≠ .settled ∧ row.state ≠ .outcomeUnknown := by
  refine ⟨fun hstate => ?_, fun hstate => ?_⟩
  · rcases h.absorbed (.inl hstate) with hsame | hgone
    · cases hsame
      exact hsettled hstate
    · cases hgone
  · obtain ⟨row₁, hsome, hstate₁⟩ := h.unknown hstate
    cases hsome
    exact hunknown hstate₁

theorem accounted_empty : Store.Accounted {} :=
  ⟨wellFormed_empty, fun _ _ h => absurd h (by simp), fun _ _ h => absurd h (by simp)⟩

theorem Store.Accounted.step (h : s.Accounted) (hc : SettlementStep s op) :
    (op.step s).Accounted := by
  refine ⟨(execute_effect op h.wellFormed).wellFormed h.wellFormed, ?_, ?_⟩
  · intro k row' hrow'
    have hchange := rowChange_of_step h.wellFormed hrow'
    exact hchange.accounted hc fun row hrow => ⟨h.wellFormed k row hrow, h.rows k row hrow⟩
  · intro k row' hrow' hsettled hunknown
    have hchange := rowChange_of_step h.wellFormed hrow'
    -- no row was posted, so it is enough that there was none before
    have hposted : ∀ e ∈ (op.execute s).2.ledgerRows k, e ∈ s.ledgerRows k := by
      rcases execute_ledger op h.wellFormed k with hkept | ⟨row₁, hrow₁, hstate⟩
      · exact hkept
      cases hrow₁.symm.trans hrow'
      rcases hstate with hstate | hstate
      · exact absurd hstate hsettled
      · exact absurd hstate hunknown
    have hbefore : s.ledgerRows k = [] := by
      rcases hrow : s.attempts.lookup k with - | row <;> rw [hrow] at hchange
      · cases hchange with
        | admitted hkey =>
          subst hkey
          exact hc (Table.notMem_of_lookup hrow)
      · obtain ⟨hs, hu⟩ := hchange.unposted hsettled hunknown
        exact h.ledger k row hrow hs hu
    rw [hbefore] at hposted
    exact List.eq_nil_iff_forall_not_mem.2 fun e he => absurd (hposted e he) List.not_mem_nil

/-- **Settlement is exact and final**: in every run with regular settlements, a
settled attempt holds exactly what it was charged and used, and one that
was not executed holds nothing and has no row in the ledger.  A row in one
of these states stays as it is while it is stored, an unknown outcome
stays unknown, and every change of a row moves it on by one version. -/
theorem settlement_exact (ops : List Op) (h : Along Op.step SettlementStep {} ops)
    (k : AttemptKey) :
    (∀ n row, (run Op.step {} (ops.take n)).attempts.lookup k = some row →
      row.data.held.length = row.data.plan.allowances.length ∧
      (row.state = .settled → row.data.ExactlySettled) ∧
      (row.state = .notExecuted → (∀ h ∈ row.data.held, h = 0) ∧
        (run Op.step {} (ops.take n)).ledgerRows k = [])) ∧
    (∀ i j row, i ≤ j → (run Op.step {} (ops.take i)).attempts.lookup k = some row →
      row.state = .settled ∨ row.state = .notExecuted →
      (∀ m, i ≤ m → m ≤ j → k ∈ (run Op.step {} (ops.take m)).attempts) →
      (run Op.step {} (ops.take j)).attempts.lookup k = some row) ∧
    (∀ i j row, i ≤ j → (run Op.step {} (ops.take i)).attempts.lookup k = some row →
      row.state = .outcomeUnknown →
      ∃ row', (run Op.step {} (ops.take j)).attempts.lookup k = some row' ∧
        row'.state = .outcomeUnknown) ∧
    (∀ n row row', (run Op.step {} (ops.take n)).attempts.lookup k = some row →
      (run Op.step {} (ops.take (n + 1))).attempts.lookup k = some row' →
      row' = row ∨ row'.version = row.version + 1) := by
  refine ⟨?_, fun _ _ _ => run_absorbed, fun _ _ _ => run_unknown, fun n row row' hrow hrow' => ?_⟩
  swap
  · obtain ⟨op, hchange⟩ := run_rowChange ops n k
    rw [hrow, hrow'] at hchange
    exact hchange.version
  intro n row hrow
  have hacc : (run Op.step {} (ops.take n)).Accounted :=
    run_inv (fun _ _ hs hc => hs.step hc) accounted_empty (h.take n)
  refine ⟨(hacc.wellFormed k row hrow).held, (hacc.rows k row hrow).settled, fun hstate => ?_⟩
  refine ⟨(hacc.rows k row hrow).released hstate, hacc.ledger k row hrow ?_ ?_⟩
  all_goals
    rw [hstate]
    simp

/-- A plan with bounds on its tokens and its cost. -/
def boundedPlan (requestID attemptID : String) : AttemptPlan :=
  { samplePlan requestID attemptID with
    maximumCost := some 20, inputBound := some 10, outputBound := some 10,
    deadline := Time.ofUnix 10000000 }

/-- An attempt is settled at a cost of 5 and deleted a month later; then an
attempt `other` is begun, and not executed. -/
def settledThenBegun (other : String) : List Op :=
  [.configure sampleStore,
   .sync "t" "l" (some { scope := .tenant, scopeID := "t", tokensPerMinute := 100,
                         concurrency := 4, maxCost := 100, costWindow := .monthly }) 100,
   .begin none (boundedPlan "r1" "x") 100 100,
   .finalize { tenantID := "t", requestID := "", attemptID := "x", state := some .settled,
               usage := some { input := some 3, output := some 4 }, actualCost := some 5 } 101 101,
   .maintain 3000000,
   .begin none (boundedPlan "r2" other) 3000001 3000001,
   .finalize { tenantID := "t", requestID := "", attemptID := other,
               state := some .notExecuted } 3000002 3000002]

theorem settledThenBegun_exact :
    ∃ row, (run Op.step {} ((settledThenBegun "y").take 4)).attempts.lookup ⟨"t", "x"⟩ = some row ∧
      row.state = .settled ∧ row.data.held = [7, 5, 0] ∧ row.data.ExactlySettled := by
  have hsome : ((run Op.step {} ((settledThenBegun "y").take 4)).attempts.lookup ⟨"t", "x"⟩).map
      (fun row => (row.state, row.data.held)) = some (.settled, [7, 5, 0]) := by decide +kernel
  obtain ⟨row, hrow, hparts⟩ := Option.map_eq_some_iff.1 hsome
  obtain ⟨hstate, hheld⟩ := Prod.mk.inj hparts
  refine ⟨row, hrow, hstate, hheld, ?_⟩
  refine ((settlement_exact (settledThenBegun "y") ?_ ⟨"t", "x"⟩).1 4 row hrow).2.1 hstate
  have hcost : (some AttemptState.settled).getD .settled ≠ .jobPending := by decide
  have hnone : (some AttemptState.notExecuted).getD .settled ≠ .jobPending := by decide
  exact ⟨trivial, trivial, fun _ => (by decide +kernel), fun h => absurd h hcost, trivial,
    fun _ => (by decide +kernel), fun h => absurd h hnone, trivial⟩

/-- Begun under the id of the deleted attempt, it has the row of its charge. -/
theorem settledThenBegun_again :
    (∀ o chargedAt savedAt, .finalize o chargedAt savedAt ∈ settledThenBegun "x" →
        o.requested = .jobPending → o.actualCost = none) ∧
      ((run Op.step {} (settledThenBegun "x")).attempts.lookup ⟨"t", "x"⟩).map AttemptRow.state =
        some .notExecuted ∧
      (run Op.step {} (settledThenBegun "x")).ledgerRows ⟨"t", "x"⟩ =
        [(⟨"t", "x:charge"⟩, ⟨"x", "charge", some 5, 101⟩)] := by
  refine ⟨?_, by decide +kernel, by decide +kernel⟩
  intro o chargedAt savedAt hmem hreq
  simp only [settledThenBegun, List.mem_cons, List.not_mem_nil, or_false, reduceCtorEq, false_or,
    Op.finalize.injEq] at hmem
  rcases hmem with ⟨rfl, -⟩ | ⟨rfl, -⟩ <;> cases hreq

end Hoorific
