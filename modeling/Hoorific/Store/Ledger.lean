/-
The usage ledger agrees with the attempts.  A settlement posts the whole
charge under the effect `<attempt>:charge`, a reconciliation posts the
difference to the charge so far under `reconciliation:<id>`, with a NULL
amount when the cost stays unknown.  So the amounts of an attempt's rows
should always add up to the charge its envelope records.

The argument is that an effect id determines what was posted.  A charge is
inserted with `ON CONFLICT DO NOTHING`, so an effect id that is taken
would lose the charge; `charge_ne_reconciliation` is the fact about the
two formats that excludes it, and it needs the attempt not to be called
`reconciliation`: that name makes the two formats meet.

`LedgerAgrees` is the invariant of a store, relative to the attempts ever
inserted.  It is kept by replacing an attempt without posting
(`replaced`), by replacing it together with a post (`posted`), by storing
a new attempt (`admitted`) and by retention of attempts (`retired`).
-/
import Hoorific.Store.Runs

namespace Hoorific

open Table

/-! ### The ledger of an attempt -/

/-- The ledger rows of an attempt. -/
def Store.ledgerRows (s : Store) (k : AttemptKey) : List (LedgerKey × LedgerRow) :=
  Table.select (fun lk row => lk.tenantID == k.tenantID && row.attemptID == k.attemptID)
    s.usageLedger

/-- The sum of their amounts, where NULL adds nothing. -/
def Store.ledgerSum (s : Store) (k : AttemptKey) : ℤ :=
  ((s.ledgerRows k).filterMap fun e => e.2.amount).sum

/-- The rows that are charges. -/
def Store.chargeRows (s : Store) (k : AttemptKey) : List (LedgerKey × LedgerRow) :=
  (s.ledgerRows k).filter fun e => e.2.effectKind == "charge"

variable {s s' : Store} {k : AttemptKey} {lk : LedgerKey} {row : LedgerRow} {env : AttemptEnvelope}
  {chargedAt savedAt now : ℤ}

theorem mem_ledgerRows :
    (lk, row) ∈ s.ledgerRows k ↔ s.usageLedger.lookup lk = some row ∧
      lk.tenantID = k.tenantID ∧ row.attemptID = k.attemptID := by
  simp [Store.ledgerRows, mem_select_iff]

theorem mem_chargeRows :
    (lk, row) ∈ s.chargeRows k ↔ (s.usageLedger.lookup lk = some row ∧
      lk.tenantID = k.tenantID ∧ row.attemptID = k.attemptID) ∧ row.effectKind = "charge" := by
  simp [Store.chargeRows, mem_ledgerRows]

theorem ledgerRows_congr (h : s'.usageLedger = s.usageLedger) (k : AttemptKey) :
    s'.ledgerRows k = s.ledgerRows k := by
  rw [Store.ledgerRows, Store.ledgerRows, h]

theorem ledgerSum_insert (hnew : s.usageLedger.lookup lk = none)
    (h : s'.usageLedger = s.usageLedger.insert lk row) (k : AttemptKey) :
    s'.ledgerSum k = s.ledgerSum k +
      if lk.tenantID = k.tenantID ∧ row.attemptID = k.attemptID then row.amount.getD 0 else 0 := by
  rw [Store.ledgerSum, Store.ledgerSum, Store.ledgerRows, Store.ledgerRows, h,
    select_insert_of_lookup_none hnew]
  by_cases hk : lk.tenantID = k.tenantID ∧ row.attemptID = k.attemptID
  · rw [if_pos (by simpa using hk), if_pos hk]
    rcases hamount : row.amount with - | amount
    · simp [hamount]
    · simp [hamount, add_comm]
  · rw [if_neg (by simpa using hk), if_neg hk, add_zero]

/-- A charge after a post is the posted row, or was there. -/
theorem chargeRows_insert (h : s'.usageLedger = s.usageLedger.insert lk row)
    (hc : s'.chargeRows k ≠ []) :
    (row.effectKind = "charge" ∧ lk.tenantID = k.tenantID ∧ row.attemptID = k.attemptID) ∨
      s.chargeRows k ≠ [] := by
  obtain ⟨⟨lk₁, e⟩, hmem⟩ := List.exists_mem_of_ne_nil _ hc
  obtain ⟨⟨hrow, hk⟩, hkind⟩ := mem_chargeRows.1 hmem
  rw [h] at hrow
  rcases lookup_insert_iff.1 hrow with ⟨rfl, rfl⟩ | ⟨-, hrow⟩
  · exact .inl ⟨hkind, hk⟩
  · exact .inr (List.ne_nil_of_mem (mem_chargeRows.2 ⟨⟨hrow, hk⟩, hkind⟩))

/-! ### Effect ids -/

/-- The effect id of a row is the one its kind is posted under. -/
def EffectNamed (lk : LedgerKey) (row : LedgerRow) : Prop :=
  row.effectKind = "charge" ∧ lk.effectID = row.attemptID ++ ":charge" ∨
    ∃ id, row.effectKind = reconciliationEffect id ∧ lk.effectID = reconciliationEffect id

/-- An attempt id that cannot be mistaken for the name of a reconciliation. -/
def PlainID (id : String) : Prop := hasPrefix id "reconciliation:" = false ∧ id ≠ "reconciliation"

theorem charge_ne_reconciliation {id : String} (h : PlainID id) (r : String) :
    id ++ ":charge" ≠ reconciliationEffect r := by
  intro heq
  have hsplit : id ++ String.singleton ':' ++ "charge" =
      "reconciliation" ++ String.singleton ':' ++ r := by
    rw [String.append_assoc]
    exact heq
  have hname : "reconciliation" ++ String.singleton ':' = "reconciliation:" := by decide
  rcases eq_or_hasPrefix_of_append (by decide) hsplit with rfl | hpre
  · exact h.2 rfl
  · rw [hname, h.1] at hpre
    cases hpre

theorem reconciliationEffect_ne_charge (r : String) : reconciliationEffect r ≠ "charge" := by
  intro heq
  have hlist := congrArg String.toList heq
  simp [reconciliationEffect] at hlist

/-! ### The invariant -/

/-- The ledger of a stored attempt and its envelope agree. -/
structure Agrees (s : Store) (k : AttemptKey) (row : AttemptRow) : Prop where
  sum : s.ledgerSum k = row.data.chargedCost
  unknown : row.data.chargedCostKnown = false → row.data.chargedCost = 0
  charge : s.chargeRows k ≠ [] → row.data.chargedCostKnown = true

/-- The invariant, where `used` are the attempts ever inserted: their ids are
plain, every ledger row belongs to one of them and is named after what it
posts, and every stored attempt agrees with its rows. -/
structure LedgerAgrees (used : AttemptKey → Prop) (s : Store) : Prop where
  stored : ∀ k ∈ s.attempts, used k
  plain : ∀ k, used k → PlainID k.attemptID
  named : ∀ lk row, s.usageLedger.lookup lk = some row → EffectNamed lk row
  owned : ∀ lk row, s.usageLedger.lookup lk = some row → used ⟨lk.tenantID, row.attemptID⟩
  agrees : ∀ k row, s.attempts.lookup k = some row → Agrees s k row

variable {used used' : AttemptKey → Prop} {s s' : Store} {k : AttemptKey} {row row' : AttemptRow}

theorem Agrees.congr (h : Agrees s k row) (hl : s'.usageLedger = s.usageLedger) :
    Agrees s' k row where
  sum := by
    rw [Store.ledgerSum, ledgerRows_congr hl]
    exact h.sum
  unknown := h.unknown
  charge := by
    rw [Store.chargeRows, ledgerRows_congr hl]
    exact h.charge

theorem LedgerAgrees.congr_used (h : LedgerAgrees used s) (hused : ∀ k, used k ↔ used' k) :
    LedgerAgrees used' s := by
  have heq : used = used' := funext fun k => propext (hused k)
  exact heq ▸ h

theorem LedgerAgrees.sameLedger (h : LedgerAgrees used s) (hl : s'.usageLedger = s.usageLedger)
    (hused : ∀ k, used k → used' k) (hplain : ∀ k, used' k → PlainID k.attemptID)
    (hrows : ∀ k row, s'.attempts.lookup k = some row → used' k ∧ Agrees s k row) :
    LedgerAgrees used' s' where
  stored := fun k hk => by
    obtain ⟨row, hrow⟩ := Option.isSome_iff_exists.1 (AList.lookup_isSome.2 hk)
    exact (hrows k row hrow).1
  plain := hplain
  named := fun lk row hrow => h.named lk row (hl ▸ hrow)
  owned := fun lk row hrow => hused _ (h.owned lk row (hl ▸ hrow))
  agrees := fun k row hrow => (hrows k row hrow).2.congr hl

theorem LedgerAgrees.lookup (h : LedgerAgrees used s) (hrow : s.attempts.lookup k = some row) :
    used k ∧ Agrees s k row :=
  ⟨h.stored k (mem_of_lookup hrow), h.agrees k row hrow⟩

theorem LedgerAgrees.retired (h : LedgerAgrees used s)
    (hatt : ∀ k row, s'.attempts.lookup k = some row → s.attempts.lookup k = some row)
    (hl : s'.usageLedger = s.usageLedger) : LedgerAgrees used s' :=
  h.sameLedger hl (fun _ => id) h.plain fun k row hrow => h.lookup (hatt k row hrow)

/-- A charge row of an attempt has one possible key, so there is at most one. -/
theorem LedgerAgrees.chargeRows_length (h : LedgerAgrees used s) (k : AttemptKey) :
    (s.chargeRows k).length ≤ 1 := by
  have hkey : ∀ e ∈ s.chargeRows k, e.1 = ⟨k.tenantID, k.attemptID ++ ":charge"⟩ := by
    rintro ⟨⟨t, id⟩, row⟩ hmem
    obtain ⟨⟨hrow, rfl, ha⟩, hkind⟩ := mem_chargeRows.1 hmem
    rcases h.named _ _ hrow with ⟨-, hid⟩ | ⟨r, hr, -⟩
    · rw [← ha, ← hid]
    · exact absurd (hr.symm.trans hkind) (reconciliationEffect_ne_charge r)
  have hnodup : ((s.chargeRows k).map Prod.fst).Nodup :=
    (nodup_keys_select _ _).sublist (List.filter_sublist.map _)
  rcases hrows : s.chargeRows k with - | ⟨a, - | ⟨b, l⟩⟩
  · simp
  · simp
  rw [hrows] at hkey hnodup
  have hab : a.1 = b.1 := (hkey a (by simp)).trans (hkey b (by simp)).symm
  simp [hab] at hnodup

/-- Replacing an attempt without posting: the charge stays what it was. -/
theorem LedgerAgrees.replaced (h : LedgerAgrees used s) (hrep : Replaced s s' k row row')
    (hl : s'.usageLedger = s.usageLedger) (hcost : row'.data.chargedCost = row.data.chargedCost)
    (hknown : row.data.chargedCostKnown = true → row'.data.chargedCostKnown = true) :
    LedgerAgrees used s' := by
  refine h.sameLedger hl (fun _ => id) h.plain fun k₁ row₁ hrow₁ => ?_
  rw [hrep.attempts] at hrow₁
  rcases lookup_insert_iff.1 hrow₁ with ⟨rfl, rfl⟩ | ⟨-, hold⟩
  · obtain ⟨hused, hk⟩ := h.lookup hrep.found
    refine ⟨hused, hk.sum.trans hcost.symm, ?_, fun hc => hknown (hk.charge hc)⟩
    intro hun
    rw [hcost]
    exact hk.unknown (Bool.eq_false_iff.2 (mt hknown (Bool.eq_false_iff.1 hun)))
  · exact h.lookup hold

/-- Replacing an attempt together with a post of the difference. -/
theorem LedgerAgrees.posted (h : LedgerAgrees used s) (hrep : Replaced s s' k row row')
    {effectID : String} {e : LedgerRow}
    (hnew : s.usageLedger.lookup ⟨k.tenantID, effectID⟩ = none)
    (hl : s'.usageLedger = s.usageLedger.insert ⟨k.tenantID, effectID⟩ e)
    (hattempt : e.attemptID = k.attemptID) (hnamed : EffectNamed ⟨k.tenantID, effectID⟩ e)
    (hcost : row'.data.chargedCost = row.data.chargedCost + e.amount.getD 0)
    (hunknown : row'.data.chargedCostKnown = false → row'.data.chargedCost = 0)
    (hcharge : e.effectKind = "charge" ∨ s.chargeRows k ≠ [] → row'.data.chargedCostKnown = true) :
    LedgerAgrees used s' := by
  have hused : used k := h.stored k (mem_of_lookup hrep.found)
  refine ⟨?_, h.plain, ?_, ?_, ?_⟩
  · intro k₁ hmem
    rw [hrep.attempts, AList.mem_insert] at hmem
    rcases hmem with rfl | hmem
    · exact hused
    · exact h.stored k₁ hmem
  · rw [hl]
    exact forall_insert h.named hnamed
  · rw [hl]
    exact forall_insert h.owned (hattempt ▸ hused)
  · intro k₁ row₁ hrow₁
    rw [hrep.attempts] at hrow₁
    have hsum := ledgerSum_insert hnew hl k₁
    rcases lookup_insert_iff.1 hrow₁ with ⟨rfl, rfl⟩ | ⟨hne, hold⟩
    · -- the attempt itself: its sum moves by the amount posted
      rw [if_pos ⟨rfl, hattempt⟩, (h.agrees k₁ row hrep.found).sum, ← hcost] at hsum
      exact ⟨hsum, hunknown, fun hc => hcharge ((chargeRows_insert hl hc).imp_left And.left)⟩
    -- another attempt: nothing of it was posted
    have hother : ¬ (k.tenantID = k₁.tenantID ∧ e.attemptID = k₁.attemptID) := by
      rintro ⟨ht, ha⟩
      exact hne (by rw [AttemptKey.mk.injEq]; exact ⟨ht.symm, ha.symm.trans hattempt⟩)
    have hk₁ := h.agrees k₁ row₁ hold
    rw [if_neg hother, add_zero, hk₁.sum] at hsum
    refine ⟨hsum, hk₁.unknown, fun hc => hk₁.charge ?_⟩
    exact (chargeRows_insert hl hc).resolve_left fun hnew => hother hnew.2

/-- Storing an attempt whose key was never used before. -/
theorem LedgerAgrees.admitted (h : LedgerAgrees used s) (hadm : Admitted s s' k row)
    (hl : s'.usageLedger = s.usageLedger) (hfresh : ¬ used k) (hplain : PlainID k.attemptID)
    (hcost : row.data.chargedCost = 0) : LedgerAgrees (fun k' => used k' ∨ k' = k) s' := by
  refine h.sameLedger hl (fun _ => .inl) ?_ ?_
  · rintro k₁ (hk₁ | rfl)
    · exact h.plain k₁ hk₁
    · exact hplain
  · intro k₁ row₁ hrow₁
    rw [hadm.attempts] at hrow₁
    rcases lookup_insert_iff.1 hrow₁ with ⟨rfl, rfl⟩ | ⟨-, hold⟩
    · -- no row can belong to an attempt that never existed
      have hrows : s.ledgerRows k₁ = [] := by
        rw [List.eq_nil_iff_forall_not_mem]
        rintro ⟨lk, e⟩ hmem
        obtain ⟨hrow, ht, ha⟩ := mem_ledgerRows.1 hmem
        have hused := h.owned lk e hrow
        rw [ht, ha] at hused
        exact hfresh hused
      refine ⟨.inr rfl, ?_, fun _ => hcost, fun hc => absurd ?_ hc⟩
      · rw [Store.ledgerSum, hrows, hcost]
        rfl
      · rw [Store.chargeRows, hrows]
        rfl
    · exact (h.lookup hold).imp_left .inl

/-! ### Each operation keeps the invariant -/

theorem completed_known (h : env.chargedCostKnown = true) :
    env.completed.chargedCostKnown = true := by
  simp [AttemptEnvelope.completed, h]

theorem unknown_of_completed (h : env.completed.chargedCostKnown = false) :
    env.chargedCostKnown = false :=
  Bool.eq_false_iff.2 (mt completed_known (Bool.eq_false_iff.1 h))

theorem charges_eq_some {e : Evidence} {cost : ℤ} (h : env.charges e = some cost) :
    env.chargedCostKnown = false := by
  unfold AttemptEnvelope.charges at h
  split at h
  next hc => exact hc.2
  next => cases h

/-- What `FinalizeAttempt` records: the charge it posts, or what was there. -/
theorem finalizedRow_charge (row : AttemptRow) (o : AttemptOutcome) (savedAt : ℤ) :
    match row.data.completed.charges (evidence row.data.completed o) with
    | none => (finalizedRow row o savedAt).data.chargedCost = row.data.chargedCost ∧
        (finalizedRow row o savedAt).data.chargedCostKnown = row.data.completed.chargedCostKnown
    | some cost => (finalizedRow row o savedAt).data.chargedCost = cost ∧
        (finalizedRow row o savedAt).data.chargedCostKnown = true := by
  have hwith : ∀ held, (row.data.completed.withHeld held).charges (evidence row.data.completed o) =
      row.data.completed.charges (evidence row.data.completed o) := fun _ => rfl
  simp only [finalizedRow, finalizedEnvelope, AttemptRow.saved, AttemptEnvelope.finished,
    AttemptEnvelope.chargedWith, hwith]
  cases row.data.completed.charges (evidence row.data.completed o) <;> exact ⟨rfl, rfl⟩

/-- The effect id of a charge is free as long as the charge is not known. -/
theorem LedgerAgrees.charge_fresh (h : LedgerAgrees used s)
    (hrow : s.attempts.lookup k = some row) (hunknown : row.data.chargedCostKnown = false) :
    s.usageLedger.lookup ⟨k.tenantID, k.attemptID ++ ":charge"⟩ = none := by
  rcases hold : s.usageLedger.lookup ⟨k.tenantID, k.attemptID ++ ":charge"⟩ with - | e
  · exact hold
  exfalso
  rcases h.named _ _ hold with ⟨hkind, hid⟩ | ⟨r, -, hid⟩
  · have hid' : k.attemptID ++ ":charge" = e.attemptID ++ ":charge" := hid
    have ha : e.attemptID = k.attemptID := by
      simpa using hid'.symm
    have hmem : (⟨k.tenantID, k.attemptID ++ ":charge"⟩, e) ∈ s.chargeRows k :=
      mem_chargeRows.2 ⟨⟨hold, rfl, ha⟩, hkind⟩
    rw [(h.agrees k row hrow).charge (List.ne_nil_of_mem hmem)] at hunknown
    cases hunknown
  · exact charge_ne_reconciliation (h.plain k (h.stored k (mem_of_lookup hrow))) r hid

theorem LedgerAgrees.finalized (h : LedgerAgrees used s) {o : AttemptOutcome}
    (hrep : Replaced s s' ⟨o.tenantID, o.attemptID⟩ row (finalizedRow row o savedAt))
    (hpost : ChargePosted s s' o
      (row.data.completed.charges (evidence row.data.completed o)) chargedAt) :
    LedgerAgrees used s' := by
  have hrow' := finalizedRow_charge row o savedAt
  rcases hcharge : row.data.completed.charges (evidence row.data.completed o) with - | cost
  · rw [hcharge] at hrow' hpost
    refine h.replaced hrep hpost hrow'.1 fun hknown => ?_
    rw [hrow'.2]
    exact completed_known hknown
  · -- a charge is posted only while the cost is unknown, so the sum was 0
    rw [hcharge] at hrow' hpost
    have hunknown := unknown_of_completed (charges_eq_some hcharge)
    have hfresh := h.charge_fresh hrep.found hunknown
    have hzero := (h.agrees _ _ hrep.found).unknown hunknown
    rcases hpost with ⟨old, hold, -⟩ | ⟨-, hl, -⟩
    · rw [hfresh] at hold
      cases hold
    refine h.posted hrep hfresh hl rfl (.inl ⟨rfl, rfl⟩) ?_ ?_ fun _ => hrow'.2
    · rw [hrow'.1, hzero, zero_add]
      rfl
    · rw [hrow'.2]
      intro hf
      cases hf

/-- `Reconcile` keeps the invariant: it posts the difference to the charge. -/
theorem LedgerAgrees.reconciled (h : LedgerAgrees used s) {t admission : String}
    {r : Reconciliation} {charge : Option ℤ}
    (hby : ReconciledBy s s' t admission r charge chargedAt savedAt row) :
    LedgerAgrees used s' := by
  have hk := h.agrees _ _ hby.replaced.found
  have hcost : (reconciledRow row r charge t admission savedAt).data.chargedCost =
      charge.getD row.data.chargedCost := rfl
  have hknown : (reconciledRow row r charge t admission savedAt).data.chargedCostKnown =
      (row.data.completed.chargedCostKnown || charge.isSome) := rfl
  refine h.posted hby.replaced hby.ledger_fresh hby.ledger rfl
    (.inr ⟨r.reconciliationID, rfl, rfl⟩) ?_ ?_ ?_
  · rw [hcost]
    cases charge <;> simp
  · rw [hknown, hcost, Bool.or_eq_false_iff]
    rintro ⟨hcompleted, hnone⟩
    rcases charge with - | cost
    · exact hk.unknown (unknown_of_completed hcompleted)
    · cases hnone
  · rw [hknown]
    rintro (hkind | hc)
    · exact absurd hkind (reconciliationEffect_ne_charge _)
    · rw [completed_known (hk.charge hc), Bool.true_or]

theorem LedgerAgrees.swept (h : LedgerAgrees used s)
    (hsweeps : Relation.ReflTransGen (SweepStep now) s s') : LedgerAgrees used s' := by
  induction hsweeps with
  | refl => exact h
  | tail _ hstep ih =>
    obtain ⟨k, row, hsw⟩ := hstep
    exact ih.replaced hsw.replaced hsw.usageLedger rfl id

theorem sweeps_usageLedger (h : Relation.ReflTransGen (SweepStep now) s s') :
    s'.usageLedger = s.usageLedger := by
  induction h with
  | refl => rfl
  | tail _ hstep ih =>
    obtain ⟨k, row, hsw⟩ := hstep
    exact hsw.usageLedger.trans ih

/-! ### Runs -/

/-- The attempts ever inserted. -/
def History.Used (h : History) (k : AttemptKey) : Prop :=
  k ∈ h.store.attempts ∨ k ∈ h.retired.map Prod.fst

theorem History.used_step (h : History) (op : Op) (k : AttemptKey) :
    (h.step op).Used k ↔ h.Used k ∨ k ∈ (op.execute h.store).2.attempts := by
  simp only [History.Used, History.step, List.map_append, List.mem_append]
  constructor
  · rintro (hk | hk | hk)
    · exact .inr hk
    · exact .inl (.inr hk)
    · obtain ⟨⟨k', env⟩, hmem, rfl⟩ := List.mem_map.1 hk
      obtain ⟨row, hrow, -, -⟩ := mem_retiredBy.1 hmem
      exact .inl (.inl (mem_of_lookup hrow))
  · rintro ((hk | hk) | hk)
    · by_cases hk' : k ∈ (op.execute h.store).2.attempts
      · exact .inl hk'
      · obtain ⟨row, hrow⟩ := Option.isSome_iff_exists.1 (AList.lookup_isSome.2 hk)
        exact .inr (.inr (List.mem_map.2 ⟨(k, row.data), mem_retiredBy.2 ⟨row, hrow, rfl, hk'⟩, rfl⟩))
    · exact .inr (.inl hk)
    · exact .inl hk

/-- A step of the runs considered: attempt ids are not used again after
retention has deleted the attempt and do not begin with `reconciliation:`,
and maintenance finds no ledger row past its retention. -/
def LedgerStep (h : History) : Op → Prop
  | .begin _ plan _ _ =>
    (⟨plan.tenantID, plan.attemptID⟩ : AttemptKey) ∉ h.retired.map Prod.fst ∧
      hasPrefix plan.attemptID "reconciliation:" = false
  | .maintain now =>
    (h.store.retireCharges (now - usageRetentionSeconds)).usageLedger = h.store.usageLedger
  | _ => True

/-- The attempt to be begun is not called `reconciliation`. -/
def Op.separated : Op → Prop
  | .begin _ plan _ _ => plan.attemptID ≠ "reconciliation"
  | _ => True

/-- The ledger invariant of a history. -/
structure History.LedgerSound (h : History) : Prop where
  wellFormed : WellFormed h.store
  agrees : LedgerAgrees h.Used h.store

/-- **Step**: what one operation keeps. -/
theorem History.ledgerSound_step (h : History) (op : Op) (hh : h.LedgerSound)
    (hc : LedgerStep h op ∧ op.separated) : (h.step op).LedgerSound := by
  have heff := execute_effect op hh.wellFormed
  refine ⟨heff.wellFormed hh.wellFormed, ?_⟩
  have hused := History.used_step h op
  change LedgerAgrees _ (op.execute h.store).2
  generalize (op.execute h.store).2 = s' at heff hused ⊢
  -- all but admission keep the set of attempts ever inserted
  have hsame : LedgerAgrees h.Used s' → LedgerAgrees (h.step op).Used s' := fun hs' =>
    hs'.congr_used fun k => ⟨fun hk => (hused k).2 (.inl hk), fun hk =>
      ((hused k).1 hk).elim id (hs'.stored k)⟩
  have hh' := hh.agrees
  cases heff with
  | policy hp =>
    exact hsame (hh'.retired (fun k row hrow => hp.attempts ▸ hrow) hp.usageLedger)
  | configured hs =>
    exact hsame (hh'.retired (fun k row hrow => by rw [hs] at hrow; exact hrow) (by rw [hs]; rfl))
  | @admitted principal submitted now planNow p s₁ subject held price _ _ hpolicy hplan _ hadm =>
    have ht : p.tenantID = submitted.tenantID := by rw [hplan]
    have ha : p.attemptID = submitted.attemptID := by rw [hplan]
    have hs₁ := hh'.retired (fun k row hrow => hpolicy.attempts ▸ hrow) hpolicy.usageLedger
    have hfresh : ¬ h.Used ⟨p.tenantID, p.attemptID⟩ := by
      rintro (hk | hk)
      · rw [← hpolicy.attempts] at hk
        exact notMem_of_lookup hadm.fresh hk
      · rw [ht, ha] at hk
        exact hc.1.1 hk
    have hplain : PlainID p.attemptID := by
      rw [ha]
      exact ⟨hc.1.2, hc.2⟩
    have hl : s'.usageLedger = s₁.usageLedger := by rw [hadm.frame]
    refine (hs₁.admitted hadm hl hfresh hplain rfl).congr_used fun k => ?_
    rw [hused k, hadm.attempts, AList.mem_insert, hpolicy.attempts]
    constructor
    · rintro (hk | hk)
      · exact .inl hk
      · exact .inr (.inl hk)
    · rintro (hk | hk | hk)
      · exact .inl hk
      · exact .inr hk
      · exact .inl (.inl hk)
  | accepted _ hrep hl => exact hsame (hh'.replaced hrep hl rfl completed_known)
  | finalized _ hrep hpost => exact hsame (hh'.finalized hrep hpost)
  | reconciled hby => exact hsame (hh'.reconciled hby)
  | @maintained now s₁ hsweeps hret =>
    have hl₁ := sweeps_usageLedger hsweeps
    have hl : s'.usageLedger = s₁.usageLedger := by
      rw [hret.ledger, hl₁, ← show _ = h.store.usageLedger from hc.1]
      simp only [Store.retireCharges, hl₁]
    exact hsame ((hh'.swept hsweeps).retired hret.kept hl)

theorem History.ledgerSound_after {ops : List Op}
    (h : Along History.step (fun h op => LedgerStep h op ∧ op.separated) {} ops) :
    (History.after ops).LedgerSound := by
  refine run_inv History.ledgerSound_step ⟨wellFormed_empty, ?_⟩ h
  refine ⟨?_, ?_, ?_, ?_, ?_⟩
  · intro k hk
    exact .inl hk
  · rintro k (hk | hk)
    · exact absurd hk (AList.notMem_empty k)
    · cases hk
  all_goals
    intro k row hrow
    simp at hrow

/-- **Ledger agreement**: in every run whose attempt ids are plain, never used
again and not `reconciliation`, and which deletes no ledger row, the
amounts of an attempt's rows add up to its charge, and at most one of its
rows is a charge. -/
theorem ledgerSum_eq_chargedCost (ops : List Op)
    (h : Along History.step (fun h op => LedgerStep h op ∧ op.separated) {} ops)
    (k : AttemptKey) (row : AttemptRow)
    (hrow : (History.after ops).store.attempts.lookup k = some row) :
    (History.after ops).store.ledgerSum k =
        (if row.data.chargedCostKnown then row.data.chargedCost else 0) ∧
      ((History.after ops).store.chargeRows k).length ≤ 1 := by
  have hsound := (History.ledgerSound_after h).agrees
  have hk := hsound.agrees k row hrow
  refine ⟨?_, hsound.chargeRows_length k⟩
  rw [hk.sum]
  split
  · rfl
  next hunknown => exact hk.unknown (by simpa using hunknown)

/-- A run in which an attempt with unknown outcome is reconciled under the id
`charge` to a cost of 5, and then another attempt is settled at 7. -/
def reconciledThenCharged (other : String) : List Op :=
  [.configure sampleStore, .begin none (samplePlan "r1" "x") 100 100,
   .finalize { tenantID := "t", requestID := "", attemptID := "x",
               state := some .outcomeUnknown } 101 101,
   .reconcile { tenantID := "t", keyID := "k", keyRevision := 1 } "x" 1
     { reconciliationID := "charge", mode := .providerEvidence, reason := "r",
       sourceReference := "s", cost := some 5 } 102 102,
   .begin none (samplePlan "r2" other) 103 103,
   .finalize { tenantID := "t", requestID := "", attemptID := other, state := some .settled,
               actualCost := some 7 } 104 104,
   .maintain 105]

theorem ledgerSum_after_reconciledThenCharged :
    ∃ row, (History.after (reconciledThenCharged "y")).store.attempts.lookup ⟨"t", "y"⟩ = some row ∧
      (History.after (reconciledThenCharged "y")).store.ledgerSum ⟨"t", "y"⟩ =
        (if row.data.chargedCostKnown then row.data.chargedCost else 0) ∧
      ((History.after (reconciledThenCharged "y")).store.chargeRows ⟨"t", "y"⟩).length ≤ 1 := by
  refine ⟨_, rfl, ledgerSum_eq_chargedCost _ ?_ _ _ rfl⟩
  have hx : (samplePlan "r1" "x").attemptID ≠ "reconciliation" := by decide
  have hy : (samplePlan "r2" "y").attemptID ≠ "reconciliation" := by decide
  exact ⟨⟨trivial, trivial⟩, ⟨⟨by decide, by decide⟩, hx⟩, ⟨trivial, trivial⟩,
    ⟨trivial, trivial⟩, ⟨⟨by decide, by decide⟩, hy⟩, ⟨trivial, trivial⟩,
    ⟨rfl, trivial⟩, trivial⟩

/-- An attempt that is itself called `reconciliation` loses its charge to the
reconciliation `charge`, whose effect id is the same. -/
theorem charge_lost_to_reconciliation :
    Along History.step LedgerStep {} (reconciledThenCharged "reconciliation") ∧
    ∃ row, (History.after (reconciledThenCharged "reconciliation")).store.attempts.lookup
        ⟨"t", "reconciliation"⟩ = some row ∧
      row.data.chargedCostKnown = true ∧ row.data.chargedCost = 7 ∧
      (History.after (reconciledThenCharged "reconciliation")).store.ledgerSum
        ⟨"t", "reconciliation"⟩ = 0 := by
  refine ⟨?_, _, rfl, rfl, rfl, rfl⟩
  exact ⟨trivial, ⟨by decide, by decide⟩, trivial, trivial, ⟨by decide, by decide⟩, trivial,
    rfl, trivial⟩

end Hoorific
