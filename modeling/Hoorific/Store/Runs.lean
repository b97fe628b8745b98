/-
Runs of the accounting store.  An `Op` is one serialized transaction with
everything its caller and the clocks decide; `Op.body` is its body and
`Op.execute` runs it under `WithTx`.  Changes of the configuration that
accounting only reads (keys, sessions, resources, the revision) are one
operation, `configure`, with an arbitrary new configuration.

`History` adds to the store the attempts that retention has deleted, with
the envelope they were last stored with, so that a statement can speak of
every attempt ever inserted.
-/
import Hoorific.Lib.Run
import Hoorific.Store.Effects

namespace Hoorific

open Tx Table

/-! ### Operations -/

/-- The store with the configuration of `c`: everything but the policy
tables and the accounting tables. -/
def Store.configured (s c : Store) : Store :=
  { c with policyLimits := s.policyLimits, quotaWindows := s.quotaWindows,
           allowances := s.allowances, attempts := s.attempts, usageLedger := s.usageLedger,
           reconciliations := s.reconciliations }

/-- A serialized transaction of the accounting store. -/
inductive Op where
  | begin (principal : Option Principal) (plan : AttemptPlan) (now planNow : ℤ)
  | accept (permit : AttemptPermit) (acceptedEvidence : String) (savedAt : ℤ)
  | finalize (outcome : AttemptOutcome) (chargedAt savedAt : ℤ)
  | reconcile (principal : Principal) (admission : String) (expected : ℤ)
      (request : Reconciliation) (chargedAt savedAt : ℤ)
  | maintain (now : ℤ)
  | sync (tenantID id : String) (next : Option PolicyLimitData) (now : ℤ)
  | configure (configuration : Store)

/-- The transaction body of an operation. -/
def Op.body : Op → StoreTx Unit
  | .begin principal plan now planNow => do
    let _ ← beginAttempt principal plan now planNow
  | .accept permit acceptedEvidence savedAt => markAccepted permit acceptedEvidence savedAt
  | .finalize o chargedAt savedAt => finalizeAttempt o chargedAt savedAt
  | .reconcile principal admission expected request chargedAt savedAt => do
    let _ ← Hoorific.reconcile principal admission expected request chargedAt savedAt
  | .maintain now => runMaintenance now
  | .sync tenantID id next now => syncPolicyLimit tenantID id next now
  | .configure c => modify fun s => s.configured c

/-- An operation under `WithTx`: its result and the store after it. -/
def Op.execute (op : Op) (s : Store) : Except StoreError Unit × Store := commit op.body s

/-! ### Histories -/

/-- A store and the attempts retention has deleted from it. -/
structure History where
  store : Store := {}
  retired : List (AttemptKey × AttemptEnvelope) := []

/-- The attempts of `s` that `s'` no longer has. -/
def retiredBy (s s' : Store) : List (AttemptKey × AttemptEnvelope) :=
  (Table.select (fun k _ => decide (k ∉ s'.attempts)) s.attempts).map fun a => (a.1, a.2.data)

def History.step (h : History) (op : Op) : History :=
  let s' := (op.execute h.store).2
  ⟨s', h.retired ++ retiredBy h.store s'⟩

/-- The history of a run from the empty store. -/
def History.after (ops : List Op) : History := run History.step {} ops

/-- Every attempt ever inserted, with the envelope it has or last had. -/
def History.attempts (h : History) : List (AttemptKey × AttemptEnvelope) :=
  (h.store.attempts.entries.map fun e => (e.1, e.2.data)) ++ h.retired

theorem retiredBy_eq_nil {s s' : Store}
    (h : ∀ k row, s.attempts.lookup k = some row → k ∈ s'.attempts) : retiredBy s s' = [] := by
  rw [retiredBy, List.map_eq_nil_iff, List.eq_nil_iff_forall_not_mem]
  rintro ⟨k, row⟩ hmem
  obtain ⟨hrow, hk⟩ := mem_select_iff.1 hmem
  exact of_decide_eq_true hk (h k row hrow)

variable {k : AttemptKey}

theorem mem_retiredBy {s s' : Store} {env : AttemptEnvelope} :
    (k, env) ∈ retiredBy s s' ↔
      ∃ row, s.attempts.lookup k = some row ∧ row.data = env ∧ k ∉ s'.attempts := by
  simp only [retiredBy, List.mem_map, Prod.mk.injEq, Prod.exists]
  constructor
  · rintro ⟨k', row, hmem, rfl, rfl⟩
    obtain ⟨hrow, hk⟩ := mem_select_iff.1 hmem
    exact ⟨row, hrow, rfl, of_decide_eq_true hk⟩
  · rintro ⟨row, hrow, rfl, hk⟩
    exact ⟨k, row, mem_select_iff.2 ⟨hrow, decide_eq_true hk⟩, rfl, rfl⟩

/-! ### What one operation does -/

/-- What a committed operation did to the store. -/
inductive Effect (s s' : Store) : Op → Prop
  | policy {op} : PolicyOnly s s' → Effect s s' op
  | configured {c} : s' = s.configured c → Effect s s' (.configure c)
  | admitted {principal submitted now planNow p s₁ subject held price} :
      validatePlan submitted = .ok () →
      Runs (resolveAllowances submitted planNow) s p s₁ → PolicyOnly s s₁ →
      p = { submitted with allowances := p.allowances } →
      List.Forall₂ (fun a amount =>
        admissionHold p (requestSeen s p.tenantID p.requestID) a = .ok amount)
        p.allowances held →
      Admitted s₁ s' ⟨p.tenantID, p.attemptID⟩
        (newAttempt p submitted subject held price s.revision now) →
      Effect s s' (.begin principal submitted now planNow)
  | accepted {permit ev savedAt row} : row.state = .dispatchIntent →
      Replaced s s' ⟨permit.tenantID, permit.attemptID⟩ row (acceptedRow row ev savedAt) →
      s'.usageLedger = s.usageLedger → Effect s s' (.accept permit ev savedAt)
  | finalized {o chargedAt savedAt row} : finalizable row.state o.requested = .ok true →
      Replaced s s' ⟨o.tenantID, o.attemptID⟩ row (finalizedRow row o savedAt) →
      ChargePosted s s' o (row.data.completed.charges (evidence row.data.completed o)) chargedAt →
      Effect s s' (.finalize o chargedAt savedAt)
  | reconciled {principal admission expected request chargedAt savedAt t r charge row} :
      ReconciledBy s s' t admission r charge chargedAt savedAt row →
      Effect s s' (.reconcile principal admission expected request chargedAt savedAt)
  | maintained {now s₁} : Relation.ReflTransGen (SweepStep now) s s₁ → RetiredBy now s₁ s' →
      Effect s s' (.maintain now)

/-- **Every operation has one of these effects**, on a well-formed store. -/
theorem execute_effect (op : Op) {s : Store} (hs : WellFormed s) :
    Effect s (op.execute s).2 op := by
  refine commit_induct (P := (Effect s · op)) (.policy (PolicyOnly.refl s)) fun u s' hrun => ?_
  cases op with
  | begin principal submitted now planNow =>
    simp only [Op.body, runs_bind, runs_pure] at hrun
    obtain ⟨permit, _, hbegin, -, rfl⟩ := hrun
    obtain ⟨p, s₁, ⟨-, hvalid, -⟩, hres, hpolicy, hplan,
      ⟨rfl, -⟩ | ⟨_, held, _, s₂, hfresh, hloop, rfl⟩⟩ := beginAttempt_runs hbegin
    · exact .policy hpolicy
    · obtain ⟨hheld, hadm⟩ := admitted_of_reserved hfresh hloop
      exact .admitted hvalid hres hpolicy hplan hheld hadm
  | accept permit ev savedAt =>
    rcases markAccepted_runs hs hrun with rfl | ⟨row, hstate, hrep, hl⟩
    · exact .policy (PolicyOnly.refl _)
    · exact .accepted hstate hrep hl
  | finalize o chargedAt savedAt =>
    obtain ⟨row, -, ⟨-, rfl⟩ | ⟨hfin, hrep, hpost⟩⟩ := finalizeAttempt_runs hs hrun
    · exact .policy (PolicyOnly.refl _)
    · exact .finalized hfin hrep hpost
  | reconcile principal admission expected request chargedAt savedAt =>
    simp only [Op.body, runs_bind, runs_pure] at hrun
    obtain ⟨out, _, hrec, -, rfl⟩ := hrun
    rcases reconcile_runs hs hrec with rfl | ⟨t, r, charge, row, hby⟩
    · exact .policy (PolicyOnly.refl _)
    · exact .reconciled hby
  | maintain now =>
    obtain ⟨s₁, hloop, hretired⟩ := runMaintenance_runs hs hrun
    exact .maintained hloop.reach hretired
  | sync t id next now =>
    rw [syncPolicyLimit_eq hrun]
    exact .policy (policyOnly_synced s t id next now)
  | configure c =>
    simp only [Op.body, runs_modify] at hrun
    exact .configured hrun.symm

/-! ### Well-formedness is kept -/

variable {row : AttemptRow}

theorem acceptedRow_valid (hv : row.Valid k) (ev : String) (savedAt : ℤ) :
    (acceptedRow row ev savedAt).Valid k :=
  saved_valid hv rfl (congrArg List.length (completed_held hv.held))

theorem finalizedRow_valid (hv : row.Valid k) (o : AttemptOutcome) (savedAt : ℤ)
    : (finalizedRow row o savedAt).Valid k := by
  refine saved_valid hv (chargedWith_plan _ _) ?_
  have hheld : (finalizedEnvelope row.data.completed o savedAt).held = List.zipWith
      (holdTarget (evidence row.data.completed o)) row.data.plan.allowances row.data.held := by
    rw [finalizedEnvelope, AttemptEnvelope.finished, chargedWith_held, completed_held hv.held]
    rfl
  rw [hheld, List.length_zipWith, hv.held, Nat.min_self]

theorem reconciledRow_valid (hv : row.Valid k) (r : Reconciliation)
    (charge : Option ℤ) (t admission : String) (savedAt : ℤ) :
    (reconciledRow row r charge t admission savedAt).Valid k := by
  refine saved_valid hv rfl ?_
  show (reconciledHeld row.data.completed r charge).length = _
  rw [reconciledHeld, completed_held hv.held, List.length_zipWith]
  show min row.data.plan.allowances.length _ = _
  rw [← hv.held, Nat.min_self]

variable {now : ℤ}

theorem sweeps_wellFormed {s s' : Store}
    (h : Relation.ReflTransGen (SweepStep now) s s') (hs : WellFormed s) : WellFormed s' := by
  induction h with
  | refl => exact hs
  | tail _ hstep ih => exact hstep.wellFormed ih

theorem Effect.wellFormed {s s' : Store} {op : Op} (h : Effect s s' op) (hs : WellFormed s) :
    WellFormed s' := by
  cases h with
  | policy h => exact hs.of_attempts_eq h.attempts
  | configured h => exact hs.of_attempts_eq (by rw [h]; rfl)
  | @admitted principal submitted now planNow p s₁ _ held _ hvalid _ hpolicy hplan hheld hadm =>
    have hnamed : p.requestID ≠ "" := by
      have hsub := validatePlan_requestID hvalid
      rw [hplan]
      exact hsub
    exact (hs.of_attempts_eq hpolicy.attempts).insert
      ⟨rfl, rfl, rfl, hnamed, hheld.length_eq.symm⟩ hadm.attempts
  | accepted _ hrep _ => exact hrep.wellFormed hs (acceptedRow_valid (hs _ _ hrep.found) _ _)
  | finalized _ hrep _ => exact hrep.wellFormed hs (finalizedRow_valid (hs _ _ hrep.found) _ _)
  | reconciled hby =>
    exact hby.replaced.wellFormed hs (reconciledRow_valid (hs _ _ hby.replaced.found) _ _ _ _ _)
  | maintained hsweeps hret =>
    intro k row hrow
    exact sweeps_wellFormed hsweeps hs k row (hret.kept k row hrow)

theorem History.after_wellFormed (ops : List Op) : WellFormed (History.after ops).store := by
  refine run_inv_of_step (I := fun h : History => WellFormed h.store) ?_ wellFormed_empty ops
  intro h op hs
  exact (execute_effect op hs).wellFormed hs

/-! ### Sweeping and retiring -/

variable {s s' : Store} {k' : AttemptKey} {row' : AttemptRow}

theorem Replaced.lookup_same (h : Replaced s s' k row row') :
    s.attempts.lookup k = some row ∧ s'.attempts.lookup k = some row' :=
  ⟨h.found, by rw [h.attempts, AList.lookup_insert]⟩

theorem Replaced.lookup_other (h : Replaced s s' k row row') (hne : k' ≠ k) :
    s'.attempts.lookup k' = s.attempts.lookup k' := by
  rw [h.attempts, AList.lookup_insert_ne hne]

theorem sweptRow_not_sweepable (row : AttemptRow) (now cutoff : ℤ) :
    sweepable cutoff (sweptRow row now) = false := by
  have hstate : (sweptRow row now).state = .outcomeUnknown := rfl
  have hreleased : (sweptRow row now).data.concurrencyReleased = true := rfl
  simp [sweepable, hstate, hreleased]

/-- The sweep changes a row at most once. -/
theorem sweeps_lookup (h : Relation.ReflTransGen (SweepStep now) s s') (k : AttemptKey) :
    s'.attempts.lookup k = s.attempts.lookup k ∨
      ∃ row, s.attempts.lookup k = some row ∧
        sweepable (now - attemptCancellationGraceSeconds) row = true ∧
        s'.attempts.lookup k = some (sweptRow row now) := by
  induction h with
  | refl => exact .inl rfl
  | tail _ hstep ih =>
    obtain ⟨k₀, row₀, hswept⟩ := hstep
    by_cases hk : k = k₀
    · subst hk
      obtain ⟨hbefore, hafter⟩ := hswept.replaced.lookup_same
      rcases ih with hsame | ⟨row, -, -, hrow⟩
      · exact .inr ⟨row₀, hsame ▸ hbefore, hswept.eligible, hafter⟩
      -- the row was swept before, so it is not eligible
      have heligible := hswept.eligible
      cases hrow.symm.trans hbefore
      rw [sweptRow_not_sweepable] at heligible
      cases heligible
    · rw [hswept.replaced.lookup_other hk]
      exact ih

/-- What maintenance deletes was settled, so the sweep did not touch it. -/
theorem lookup_of_lost {s₁ : Store} (hsweeps : Relation.ReflTransGen (SweepStep now) s s₁)
    (hret : RetiredBy now s₁ s') (hk : k ∉ s'.attempts) :
    s₁.attempts.lookup k = s.attempts.lookup k := by
  rcases sweeps_lookup hsweeps k with hsame | ⟨row, -, -, hswept⟩
  · exact hsame
  rcases hret.deleted k _ hswept with hkept | ⟨-, hsettled⟩
  · exact absurd (mem_of_lookup hkept) hk
  · cases hsettled

/-- The attempts before retention are those after it and the retired ones. -/
theorem retired_rows {s₁ : Store}
    (hsweeps : Relation.ReflTransGen (SweepStep now) s s₁) (hret : RetiredBy now s₁ s') :
    Table.rows s₁.attempts = Table.rows s'.attempts +
      ((Table.select (fun k _ => decide (k ∉ s'.attempts)) s.attempts).map Prod.snd : List _) := by
  have hperm : (Table.select (fun k _ => decide (k ∉ s'.attempts)) s₁.attempts).Perm
      (Table.select (fun k _ => decide (k ∉ s'.attempts)) s.attempts) := by
    refine (List.perm_ext_iff_of_nodup (nodup_keys_select _ _).of_map
      (nodup_keys_select _ _).of_map).2 ?_
    rintro ⟨k, row⟩
    rw [mem_select_iff, mem_select_iff]
    refine and_congr_left fun hk => ?_
    rw [lookup_of_lost hsweeps hret (of_decide_eq_true hk)]
  rw [rows_of_subtable hret.kept, Multiset.coe_eq_coe.2 (hperm.map Prod.snd)]

/-! ### A configuration to run on -/

/-- A tenant with an administrator's key and one connection. -/
def sampleStore : Store :=
  { tenants := AList.singleton "t" { enabled := true }
    apiKeys := AList.singleton ("t", "k") ⟨1, false⟩
    resources :=
      (AList.singleton (⟨"t", .apiKeys, "k"⟩ : ResourceKey)
        (⟨1, ({ permissions := ["*"], role := .admin } : KeyData)⟩ : Resource .apiKeys)).insert
      ⟨"t", .connections, "c"⟩
        (⟨1, ({ connector := "openai", accountID := "", enabled := true } : ConnectionData)⟩ :
          Resource .connections) }

/-- A plan on that connection, without a model. -/
def samplePlan (requestID attemptID : String) : AttemptPlan :=
  { tenantID := "t", requestID := requestID, attemptID := attemptID, keyID := "k"
    connectionID := "c", keyRevision := 1, deadline := Time.ofUnix 1000, operation := "generate" }

end Hoorific
