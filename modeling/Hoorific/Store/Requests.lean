/-
Request units across the attempts of a request.  A request may be tried on
several targets; its attempts should hold one unit of a `requests`
allowance together.  `BeginAttempt` takes the unit for the first attempt
and skips it when any attempt of the request is stored; a `not_executed`
outcome gives back what its attempt holds.

The attempts of a request are a group in the sense of `Lib/Shared`: an
attempt is live unless it is `not_executed`.  The rules there say when the
law survives, and two steps of the store break them: an attempt that joins
a request none of whose attempts is live any more comes without the unit,
and an attempt that leaves with the unit takes it away from a live one.
`RequestStep` excludes exactly these, next to plans with two allowances of
one limit.

The census of a history are the states and envelopes of all attempts ever
inserted; retention moves entries but does not change it.
-/
import Hoorific.Lib.Shared
import Hoorific.Store.Conservation
import Hoorific.Store.Resolve

namespace Hoorific

open List Table

/-! ### The census -/

/-- What the census keeps of a row. -/
def AttemptRow.entry (row : AttemptRow) : AttemptState × AttemptEnvelope := (row.state, row.data)

/-- The entry of a retired attempt: only settled ones are retired. -/
def retiredEntry (a : AttemptKey × AttemptEnvelope) : AttemptState × AttemptEnvelope :=
  (.settled, a.2)

def Store.census (s : Store) : Multiset (AttemptState × AttemptEnvelope) :=
  (Table.rows s.attempts).map AttemptRow.entry

/-- All attempts ever inserted. -/
def History.census (h : History) : Multiset (AttemptState × AttemptEnvelope) :=
  h.store.census + ↑(h.retired.map retiredEntry)

variable {s s' : Store} {k : AttemptKey} {row row' : AttemptRow}

theorem census_congr (h : s'.attempts = s.attempts) : s'.census = s.census := by
  rw [Store.census, Store.census, h]

variable {e : AttemptState × AttemptEnvelope} {now : ℤ} {env env' : AttemptEnvelope}
  {f : Allowance → ℤ → ℤ} {o : AttemptOutcome} {h : History}

theorem mem_census (hrow : s.attempts.lookup k = some row) : row.entry ∈ s.census :=
  Multiset.mem_map.2 ⟨row, mem_rows_iff.2 ⟨k, hrow⟩, rfl⟩

theorem Admitted.census (h : Admitted s s' k row) : s'.census = row.entry ::ₘ s.census := by
  rw [Store.census, h.attempts, rows_insert_of_lookup_none h.fresh]
  rfl

/-- The entries of the other attempts. -/
def Store.others (s : Store) (k : AttemptKey) : Multiset (AttemptState × AttemptEnvelope) :=
  (Table.rows (s.attempts.erase k)).map AttemptRow.entry

theorem mem_others (h : e ∈ s.others k) :
    ∃ k' row', k' ≠ k ∧ s.attempts.lookup k' = some row' ∧ row'.entry = e := by
  obtain ⟨row', hmem, rfl⟩ := Multiset.mem_map.1 h
  obtain ⟨k', hrow'⟩ := mem_rows_iff.1 hmem
  obtain ⟨hne, hrow'⟩ := lookup_erase_iff.1 hrow'
  exact ⟨k', row', hne, hrow', rfl⟩

theorem Replaced.census (h : Replaced s s' k row row') :
    s.census = row.entry ::ₘ s.others k ∧ s'.census = row'.entry ::ₘ s.others k := by
  obtain ⟨hold, hnew⟩ := rows_insert_of_lookup h.found row'
  constructor
  · rw [Store.census, hold, Multiset.map_cons]
    rfl
  · rw [Store.census, h.attempts, hnew, Multiset.map_cons]
    rfl

theorem retired_census {s₁ : Store} (hsweeps : Relation.ReflTransGen (SweepStep now) s s₁)
    (hret : RetiredBy now s₁ s') :
    s'.census + ↑((retiredBy s s').map retiredEntry) = s₁.census := by
  -- what was deleted was settled
  have hsettled : ∀ e ∈ Table.select (fun k _ => decide (k ∉ s'.attempts)) s.attempts,
      e.2.entry = (.settled, e.2.data) := by
    rintro ⟨k, row⟩ hmem
    obtain ⟨hrow, hk⟩ := mem_select_iff.1 hmem
    have hk' : k ∉ s'.attempts := of_decide_eq_true hk
    rw [← lookup_of_lost hsweeps hret hk'] at hrow
    rcases hret.deleted k row hrow with hkept | ⟨-, hset⟩
    · exact absurd (mem_of_lookup hkept) hk'
    · rw [AttemptRow.entry, hset]
  rw [Store.census, Store.census, retired_rows hsweeps hret, Multiset.map_add, Multiset.map_coe,
    map_map, retiredBy, map_map]
  congr 2
  exact map_congr_left fun e he => (hsettled e he).symm

/-! ### The group of a request -/

variable {r : String} {K : AllowanceKey}

/-- An entry belongs to the request `r` of the tenant of `K`. -/
def OfRequest (r : String) (K : AllowanceKey) (e : AttemptState × AttemptEnvelope) : Prop :=
  e.2.plan.tenantID = K.tenantID ∧ e.2.plan.requestID = r

instance : DecidablePred (OfRequest r K) := fun e =>
  inferInstanceAs (Decidable (e.2.plan.tenantID = K.tenantID ∧ e.2.plan.requestID = r))

/-- An attempt as a member of its request's group. -/
def member (K : AllowanceKey) (e : AttemptState × AttemptEnvelope) : Member :=
  ⟨e.1 != .notExecuted, e.2.heldUnder K⟩

theorem member_of_live (h : e.1 ≠ .notExecuted) : member K e = ⟨true, e.2.heldUnder K⟩ := by
  rw [member, bne_iff_ne.2 h]

theorem member_eq_of_live {e' : AttemptState × AttemptEnvelope} (h' : e'.1 ≠ .notExecuted)
    (h : e.1 ≠ .notExecuted) (hheld : e'.2.heldUnder K = e.2.heldUnder K) :
    member K e' = member K e := by
  rw [member_of_live h', member_of_live h, hheld]

def requestGroup (r : String) (K : AllowanceKey)
    (c : Multiset (AttemptState × AttemptEnvelope)) : Multiset Member :=
  (c.filter (OfRequest r K)).map (member K)

/-- The allowance `K` is part of a plan. -/
def AttemptPlan.limitedBy (p : AttemptPlan) (K : AllowanceKey) : Prop :=
  ∃ a ∈ p.allowances, a.key K.tenantID = K

instance (p : AttemptPlan) : Decidable (p.limitedBy K) :=
  inferInstanceAs (Decidable (∃ a ∈ p.allowances, a.key K.tenantID = K))

/-- The attempts of the request share one unit of `K`, if `K` is part of all
their plans. -/
def Lawful (r : String) (K : AllowanceKey) (c : Multiset (AttemptState × AttemptEnvelope)) : Prop :=
  (∀ e ∈ c, OfRequest r K e → e.2.plan.limitedBy K) → SharesUnit (requestGroup r K c)

variable {c : Multiset (AttemptState × AttemptEnvelope)} {e e' : AttemptState × AttemptEnvelope}

theorem requestGroup_cons (h : OfRequest r K e) :
    requestGroup r K (e ::ₘ c) = member K e ::ₘ requestGroup r K c := by
  rw [requestGroup, Multiset.filter_cons_of_pos _ h, Multiset.map_cons]
  rfl

theorem requestGroup_cons_of_not (h : ¬ OfRequest r K e) :
    requestGroup r K (e ::ₘ c) = requestGroup r K c := by
  rw [requestGroup, Multiset.filter_cons_of_neg _ h]
  rfl

theorem mem_requestGroup {m : Member} :
    m ∈ requestGroup r K c ↔ ∃ e ∈ c, OfRequest r K e ∧ member K e = m := by
  simp [requestGroup, Multiset.mem_map, Multiset.mem_filter, and_assoc]

/-- An entry exchanged for another of the same plan. -/
theorem Lawful.revise (h : Lawful r K (e ::ₘ c)) (hplan : e'.2.plan = e.2.plan)
    (hgroup : OfRequest r K e → SharesUnit (requestGroup r K (e ::ₘ c)) →
      SharesUnit (member K e' ::ₘ requestGroup r K c)) : Lawful r K (e' ::ₘ c) := by
  have hiff : OfRequest r K e' ↔ OfRequest r K e := by rw [OfRequest, OfRequest, hplan]
  intro hcov
  have hcov' : ∀ x ∈ e ::ₘ c, OfRequest r K x → x.2.plan.limitedBy K := by
    intro x hx hreq
    rcases Multiset.mem_cons.1 hx with rfl | hx
    · rw [← hplan]
      exact hcov e' (Multiset.mem_cons_self _ _) (hiff.2 hreq)
    · exact hcov x (Multiset.mem_cons_of_mem hx) hreq
  have hold := h hcov'
  by_cases hreq : OfRequest r K e
  · rw [requestGroup_cons (hiff.2 hreq)]
    exact hgroup hreq hold
  rw [requestGroup_cons_of_not hreq] at hold
  rw [requestGroup_cons_of_not (fun h' => hreq (hiff.1 h'))]
  exact hold

/-- An entry exchanged for one that is as live and holds as much. -/
theorem Lawful.keep (h : Lawful r K (e ::ₘ c)) (hplan : e'.2.plan = e.2.plan)
    (hmember : member K e' = member K e) : Lawful r K (e' ::ₘ c) := by
  refine h.revise hplan fun hreq hold => ?_
  rw [hmember, ← requestGroup_cons hreq]
  exact hold

/-! ### What the operations do to a request unit -/

theorem heldUnder_congr (hplan : env'.plan = env.plan) (hheld : env'.held = env.held) :
    env'.heldUnder K = env.heldUnder K := by
  rw [AttemptEnvelope.heldUnder, AttemptEnvelope.heldUnder, hplan, hheld]

/-- Holds changed one by one, seen under one key. -/
theorem sum_zip_zipWith (f : Allowance → ℤ → ℤ) (q : Allowance → Bool) :
    ∀ (as : List Allowance) (hs : List ℤ),
      (((as.zip (List.zipWith f as hs)).filter fun e => q e.1).map Prod.snd).sum =
        (((as.zip hs).filter fun e => q e.1).map fun e => f e.1 e.2).sum
  | [], _ => rfl
  | _ :: _, [] => rfl
  | a :: as, g :: hs => by
    have ih := sum_zip_zipWith f q as hs
    rw [zipWith_cons_cons, zip_cons_cons, zip_cons_cons, filter_cons, filter_cons]
    rcases hq : q a with - | -
    · exact ih
    · simp only [map_cons, sum_cons, if_true, ih]

/-- Changes that leave request units alone. -/
theorem heldUnder_of_keeps (hK : K.kind = .requests) (hplan : env'.plan = env.plan)
    (hheld : env'.held = List.zipWith f env.plan.allowances env.held)
    (hf : ∀ a g, a.kind = .requests → f a g = g) : env'.heldUnder K = env.heldUnder K := by
  rw [AttemptEnvelope.heldUnder, hplan, hheld, sum_zip_zipWith f fun a => a.key K.tenantID == K]
  refine congrArg List.sum (map_congr_left ?_)
  rintro ⟨a, g⟩ hmem
  have hkey : a.key K.tenantID = K := by simpa using (mem_filter.1 hmem).2
  exact hf a g (by rw [← hK, ← hkey]; rfl)

/-- Changes that give everything back. -/
theorem heldUnder_of_clears (hplan : env'.plan = env.plan)
    (hheld : env'.held = List.zipWith f env.plan.allowances env.held) (hf : ∀ a g, f a g = 0) :
    env'.heldUnder K = 0 := by
  rw [AttemptEnvelope.heldUnder, hplan, hheld, sum_zip_zipWith f fun a => a.key K.tenantID == K]
  refine sum_eq_zero fun x hx => ?_
  obtain ⟨e, -, rfl⟩ := mem_map.1 hx
  exact hf e.1 e.2

theorem finalizedRow_plan (row : AttemptRow) (o : AttemptOutcome) (t : ℤ) :
    (finalizedRow row o t).data.plan = row.data.plan :=
  chargedWith_plan _ _

theorem finalizedRow_held (hv : row.Valid k) (o : AttemptOutcome) (t : ℤ) :
    (finalizedRow row o t).data.held =
      List.zipWith (holdTarget (evidence row.data.completed o)) row.data.plan.allowances
        row.data.held := by
  show (finalizedEnvelope row.data.completed o t).held = _
  rw [finalizedEnvelope, AttemptEnvelope.finished, chargedWith_held, completed_held hv.held]
  rfl

/-- The state an outcome leads to is `not_executed` only if it asks for it. -/
theorem evidence_next_notExecuted (env : AttemptEnvelope) (o : AttemptOutcome) :
    (evidence env o).next = .notExecuted ↔ o.requested = .notExecuted := by
  rcases evidence_next_cases env o with h | ⟨hreq, h⟩
  · rw [h]
  · rw [h, hreq]
    simp

theorem finalizable_live {state next : AttemptState} (h : finalizable state next = .ok true) :
    state ≠ .notExecuted := by
  rintro rfl
  unfold finalizable at h
  simp only at h
  split at h <;> cases h

theorem member_finalized (hK : K.kind = .requests) (hv : row.Valid k) (t : ℤ)
    (hfin : finalizable row.state o.requested = .ok true) (hreq : o.requested ≠ .notExecuted) :
    member K (finalizedRow row o t).entry = member K row.entry := by
  have hlive := finalizable_live hfin
  have hnext : (evidence row.data.completed o).next ≠ .notExecuted :=
    fun h => hreq ((evidence_next_notExecuted _ o).1 h)
  refine member_eq_of_live hnext hlive ?_
  refine heldUnder_of_keeps hK (finalizedRow_plan row o t) (finalizedRow_held hv o t) ?_
  intro a g ha
  simp [holdTarget, hnext, ha]

theorem member_finalized_notExecuted (hv : row.Valid k) (t : ℤ)
    (hreq : o.requested = .notExecuted) :
    member K (finalizedRow row o t).entry = ⟨false, 0⟩ := by
  have hnext := (evidence_next_notExecuted row.data.completed o).2 hreq
  have hstate : (finalizedRow row o t).entry.1 = .notExecuted := hnext
  have hheld : (finalizedRow row o t).entry.2.heldUnder K = 0 := by
    refine heldUnder_of_clears (finalizedRow_plan row o t) (finalizedRow_held hv o t) ?_
    simp [holdTarget, hnext]
  rw [member, hstate, hheld]
  rfl

theorem member_accepted (hv : row.Valid k) (ev : String) (t : ℤ)
    (hstate : row.state = .dispatchIntent) :
    member K (acceptedRow row ev t).entry = member K row.entry := by
  have hlive : row.entry.1 ≠ .notExecuted := by simp [AttemptRow.entry, hstate]
  have hlive' : (acceptedRow row ev t).entry.1 ≠ .notExecuted := by
    simp [acceptedRow, AttemptRow.saved, AttemptRow.entry]
  exact member_eq_of_live hlive' hlive (heldUnder_congr rfl (completed_held hv.held))

theorem member_reconciled (hK : K.kind = .requests) (hv : row.Valid k) (rec : Reconciliation)
    (charge : Option ℤ) (tenantID admission : String) (t : ℤ)
    (hstate : row.state = .outcomeUnknown) :
    member K (reconciledRow row rec charge tenantID admission t).entry = member K row.entry := by
  have hlive : row.entry.1 ≠ .notExecuted := by simp [AttemptRow.entry, hstate]
  have hlive' : (reconciledRow row rec charge tenantID admission t).entry.1 ≠ .notExecuted := by
    simp [reconciledRow, AttemptRow.saved, AttemptRow.entry]
  refine member_eq_of_live hlive' hlive ?_
  refine heldUnder_of_keeps hK rfl (f := reconciledHold charge (reconciledTokens rec)) ?_ ?_
  · show reconciledHeld row.data.completed rec charge = _
    rw [reconciledHeld, completed_held hv.held]
    rfl
  · intro a g ha
    simp [reconciledHold, reconcileTarget, ha]

theorem member_swept (hK : K.kind = .requests)
    (helig : sweepable (now - attemptCancellationGraceSeconds) row = true) :
    member K (sweptRow row now).entry = member K row.entry := by
  have hlive : row.state ≠ .notExecuted := by
    intro hs
    simp [sweepable, hs] at helig
  have hlive' : (sweptRow row now).entry.1 ≠ .notExecuted := by
    simp [sweptRow, AttemptRow.saved, AttemptRow.entry]
  refine member_eq_of_live hlive' hlive ?_
  refine heldUnder_of_keeps hK rfl rfl ?_
  intro a g ha
  simp [releasedHold, ha]

/-! ### Admission -/

theorem requestSeen_iff {t : String} : requestSeen s t r = true ↔
    ∃ k row, s.attempts.lookup k = some row ∧ k.tenantID = t ∧ row.requestID = r := by
  unfold requestSeen
  rw [bne_iff_ne, Ne, length_eq_zero_iff]
  constructor
  · intro hne
    obtain ⟨⟨k, row⟩, hmem⟩ := exists_mem_of_ne_nil _ hne
    obtain ⟨hrow, hp⟩ := mem_select_iff.1 hmem
    simp only [Bool.and_eq_true, beq_iff_eq] at hp
    exact ⟨k, row, hrow, hp⟩
  · rintro ⟨k, row, hrow, ht, hr⟩
    have hmem : (k, row) ∈ Table.select (fun k row => k.tenantID == t && row.requestID == r)
        s.attempts := mem_select_iff.2 ⟨hrow, by simp [ht, hr]⟩
    exact ne_nil_of_mem hmem

/-- An attempt admitted under a plan free of duplicates takes one request
unit, or none if its request was seen. -/
theorem heldUnder_of_admission {seen : Bool} (hK : K.kind = .requests)
    (hlimited : env.plan.limitedBy K)
    (hnodup : (env.plan.allowances.map Allowance.coordinates).Nodup)
    (hheld : List.Forall₂ (fun a amount => admissionHold env.plan seen a = .ok amount)
      env.plan.allowances env.held) : env.heldUnder K = if seen then 0 else 1 := by
  obtain ⟨a, ha, hkey⟩ := hlimited
  have hunits : List.Forall₂ (fun a amount => amount = admissionUnits env.plan seen a)
      env.plan.allowances env.held := hheld.imp fun _ _ => admissionHold_units
  have hkind : a.kind = .requests := by
    rw [← hK, ← hkey]
    rfl
  have hsum := sum_heldAt_of_nodup K.tenantID hunits hnodup ha
  rw [hkey, sum_zipWith_heldAt] at hsum
  rw [AttemptEnvelope.heldUnder, hsum, admissionUnits, hkind]

/-! ### Runs -/

/-- Some attempt of the request was inserted. -/
def History.Attempted (r : String) (K : AllowanceKey) (h : History) : Prop :=
  ∃ e ∈ h.census, OfRequest r K e

/-- Some stored attempt of the request is not `not_executed`. -/
def Store.Live (r : String) (K : AllowanceKey) (s : Store) : Prop :=
  ∃ k row, s.attempts.lookup k = some row ∧ k.tenantID = K.tenantID ∧ row.requestID = r ∧
    row.state ≠ .notExecuted

/-- All attempts of the request but `k` are `not_executed`. -/
def History.Last (r : String) (K : AllowanceKey) (k : AttemptKey) (h : History) : Prop :=
  (∀ k' row', h.store.attempts.lookup k' = some row' → k' ≠ k → k'.tenantID = K.tenantID →
    row'.requestID = r → row'.state = .notExecuted) ∧
  ∀ a ∈ h.retired, ¬ OfRequest r K (retiredEntry a)

/-- A step that respects the unit of `K` for the request `r`.  A new attempt
has a plan with one row per limit, none of them rolled over ahead of the
cursor, and joins a request that has no attempt
yet or a live one; an attempt that holds the unit becomes `not_executed`
only when no other attempt is live. -/
def RequestStep (r : String) (K : AllowanceKey) (h : History) : Op → Prop
  | .begin _ plan _ planNow => plan.tenantID = K.tenantID → plan.requestID = r →
    (⟨plan.tenantID, plan.attemptID⟩ : AttemptKey) ∉ h.store.attempts →
      SingleRows h.store plan planNow ∧ (h.Attempted r K → h.store.Live r K)
  | .finalize o _ _ => o.requested = .notExecuted → ∀ row,
    h.store.attempts.lookup ⟨o.tenantID, o.attemptID⟩ = some row → OfRequest r K row.entry →
      row.data.heldUnder K ≠ 0 → h.Last r K ⟨o.tenantID, o.attemptID⟩
  | _ => True

theorem ofRequest_entry (hv : row.Valid k) :
    OfRequest r K row.entry ↔ k.tenantID = K.tenantID ∧ row.requestID = r := by
  rw [← hv.requestID, ← hv.tenantID]
  rfl

/-- `FinalizeAttempt` keeps the law under the condition on `not_executed`. -/
theorem Lawful.finalized (hK : K.kind = .requests) (hs : WellFormed h.store) {savedAt : ℤ}
    (hlaw : Lawful r K (row.entry ::ₘ (h.store.others ⟨o.tenantID, o.attemptID⟩ +
      ↑(h.retired.map retiredEntry))))
    (hfound : h.store.attempts.lookup ⟨o.tenantID, o.attemptID⟩ = some row)
    (hfin : finalizable row.state o.requested = .ok true)
    (hlast : o.requested = .notExecuted → OfRequest r K row.entry → row.data.heldUnder K ≠ 0 →
      h.Last r K ⟨o.tenantID, o.attemptID⟩) :
    Lawful r K ((finalizedRow row o savedAt).entry ::ₘ
      (h.store.others ⟨o.tenantID, o.attemptID⟩ + ↑(h.retired.map retiredEntry))) := by
  have hv := hs _ _ hfound
  by_cases hreq : o.requested = .notExecuted
  · refine hlaw.revise (finalizedRow_plan row o savedAt) fun hof hunit => ?_
    rw [member_finalized_notExecuted hv savedAt hreq]
    rw [requestGroup_cons hof, member_of_live (finalizable_live hfin)] at hunit
    refine hunit.leave ?_
    by_cases hzero : row.data.heldUnder K = 0
    · exact .inl hzero
    -- it leaves with the unit, so it is the last one
    right
    obtain ⟨hstored, hretired⟩ := hlast hreq hof hzero
    intro m hm
    obtain ⟨e, he, hofe, rfl⟩ := mem_requestGroup.1 hm
    rcases Multiset.mem_add.1 he with he | he
    · obtain ⟨k', row', hne, hrow', rfl⟩ := mem_others he
      obtain ⟨ht, hr⟩ := (ofRequest_entry (hs k' row' hrow')).1 hofe
      have hstate : row'.entry.1 = .notExecuted := hstored k' row' hrow' hne ht hr
      rw [member, hstate]
      rfl
    · obtain ⟨a, ha, rfl⟩ := mem_map.1 (Multiset.mem_coe.1 he)
      exact absurd hofe (hretired a ha)
  · exact hlaw.keep (finalizedRow_plan row o savedAt) (member_finalized hK hv savedAt hfin hreq)

theorem Lawful.swept {d : Multiset (AttemptState × AttemptEnvelope)} (hK : K.kind = .requests)
    (hsweeps : Relation.ReflTransGen (SweepStep now) s s') (h : Lawful r K (s.census + d)) :
    Lawful r K (s'.census + d) := by
  induction hsweeps with
  | refl => exact h
  | tail _ hstep ih =>
    obtain ⟨k, row, hsw⟩ := hstep
    obtain ⟨hold, hnew⟩ := hsw.replaced.census
    rw [hold, Multiset.cons_add] at ih
    rw [hnew, Multiset.cons_add]
    exact ih.keep rfl (member_swept hK hsw.eligible)

theorem mem_census_of_lookup (hrow : h.store.attempts.lookup k = some row) : row.entry ∈ h.census :=
  Multiset.mem_add.2 (.inl (mem_census hrow))

/-- `BeginAttempt` keeps the law: the first attempt brings the unit, a later
one joins a live request. -/
theorem Lawful.admitted (hK : K.kind = .requests) (hs : WellFormed h.store)
    (hlaw : Lawful r K h.census) (hheld : List.Forall₂ (fun a amount => admissionHold env.plan
      (requestSeen h.store env.plan.tenantID env.plan.requestID) a = .ok amount)
      env.plan.allowances env.held)
    (hcond : env.plan.tenantID = K.tenantID → env.plan.requestID = r →
      (env.plan.allowances.map Allowance.coordinates).Nodup ∧
        (h.Attempted r K → h.store.Live r K)) :
    Lawful r K ((.dispatchIntent, env) ::ₘ h.census) := by
  intro hcov
  have hold : SharesUnit (requestGroup r K h.census) :=
    hlaw fun e he => hcov e (Multiset.mem_cons_of_mem he)
  by_cases hof : OfRequest r K (.dispatchIntent, env)
  · have hlimited := hcov _ (Multiset.mem_cons_self _ _) hof
    obtain ⟨hnodup, hlive⟩ := hcond hof.1 hof.2
    rw [show env.plan.tenantID = K.tenantID from hof.1,
      show env.plan.requestID = r from hof.2] at hheld
    have hunit := heldUnder_of_admission hK hlimited hnodup hheld
    have hmember : member K (.dispatchIntent, env) = ⟨true, env.heldUnder K⟩ :=
      member_of_live (by simp)
    rw [requestGroup_cons hof, hmember, hunit]
    by_cases hatt : h.Attempted r K
    · -- some stored attempt is live: the request was seen
      obtain ⟨k, row, hrow, ht, hr, hstate⟩ := hlive hatt
      have hseen : requestSeen h.store K.tenantID r = true :=
        requestSeen_iff.2 ⟨k, row, hrow, ht, hr⟩
      rw [hseen]
      refine hold.join ⟨member K row.entry, ?_, ?_⟩
      · exact mem_requestGroup.2 ⟨row.entry, mem_census_of_lookup hrow,
          (ofRequest_entry (hs k row hrow)).2 ⟨ht, hr⟩, rfl⟩
      · rw [member_of_live (show row.entry.1 ≠ .notExecuted from hstate)]
    · -- the first attempt of its request
      have hseen : requestSeen h.store K.tenantID r = false := by
        rw [← Bool.not_eq_true, requestSeen_iff]
        rintro ⟨k, row, hrow, ht, hr⟩
        exact hatt ⟨row.entry, mem_census_of_lookup hrow,
          (ofRequest_entry (hs k row hrow)).2 ⟨ht, hr⟩⟩
      have hempty : requestGroup r K h.census = 0 := by
        refine Multiset.eq_zero_of_forall_notMem fun m hm => ?_
        obtain ⟨e, he, hofe, -⟩ := mem_requestGroup.1 hm
        exact hatt ⟨e, he, hofe⟩
      rw [hseen, hempty]
      exact SharesUnit.first
  · rw [requestGroup_cons_of_not hof]
    exact hold

/-- What a history keeps about the request `r`. -/
structure History.RequestSound (r : String) (K : AllowanceKey) (h : History) : Prop where
  wellFormed : WellFormed h.store
  lawful : Lawful r K h.census

/-- **Step**: what one operation keeps. -/
theorem History.requestSound_step (hK : K.kind = .requests) (h : History) (op : Op)
    (hh : h.RequestSound r K) (hc : RequestStep r K h op) : (h.step op).RequestSound r K := by
  have heff := execute_effect op hh.wellFormed
  refine ⟨heff.wellFormed hh.wellFormed, ?_⟩
  have hs := hh.wellFormed
  have hlaw := hh.lawful
  have hmoved : (h.step op).census = (op.execute h.store).2.census +
      ↑((retiredBy h.store (op.execute h.store).2).map retiredEntry) +
      ↑(h.retired.map retiredEntry) := by
    simp only [History.census, History.step, map_append, ← Multiset.coe_add]
    rw [add_assoc]
    exact congrArg _ (add_comm _ _)
  generalize (op.execute h.store).2 = s' at heff hmoved
  have hcensus (hkept : retiredBy h.store s' = []) :
      (h.step op).census = s'.census + ↑(h.retired.map retiredEntry) := by
    simpa [hkept] using hmoved
  -- a row replaced: one entry exchanged
  have hrep : ∀ {k row row'}, Replaced h.store s' k row row' →
      (Lawful r K (row.entry ::ₘ (h.store.others k + ↑(h.retired.map retiredEntry))) →
        Lawful r K (row'.entry ::ₘ (h.store.others k + ↑(h.retired.map retiredEntry)))) →
      Lawful r K (h.step op).census := by
    intro k row row' hrep hstep
    obtain ⟨hold, hnew⟩ := hrep.census
    rw [hcensus (retiredBy_of_insert rfl hrep.attempts), hnew]
    rw [History.census, hold] at hlaw
    exact hstep hlaw
  have hsame : s'.attempts = h.store.attempts → Lawful r K (h.step op).census := by
    intro hatt
    rw [hcensus (retiredBy_eq_nil fun k row hrow => hatt ▸ mem_of_lookup hrow), census_congr hatt]
    exact hlaw
  cases heff with
  | policy hp => exact hsame hp.attempts
  | configured hcfg => exact hsame (by rw [hcfg]; rfl)
  | @admitted principal submitted now planNow p s₁ subject held price _ hres hpolicy hplan hheld hadm =>
    have ht : p.tenantID = submitted.tenantID := by rw [hplan]
    have hr : p.requestID = submitted.requestID := by rw [hplan]
    have ha : p.attemptID = submitted.attemptID := by rw [hplan]
    rw [hcensus (retiredBy_of_insert hpolicy.attempts hadm.attempts), hadm.census, census_congr hpolicy.attempts]
    refine hlaw.admitted hK hs hheld fun htK hrK => ?_
    have hnew : (⟨submitted.tenantID, submitted.attemptID⟩ : AttemptKey) ∉ h.store.attempts := by
      rw [← ht, ← ha, ← hpolicy.attempts]
      exact notMem_of_lookup hadm.fresh
    obtain ⟨hsingle, hlive⟩ := hc (ht ▸ htK) (hr ▸ hrK) hnew
    exact ⟨resolveAllowances_nodup hres hsingle, hlive⟩
  | accepted hstate hr _ =>
    exact hrep hr fun hl => hl.keep rfl (member_accepted (hs _ _ hr.found) _ _ hstate)
  | finalized hfin hr _ =>
    exact hrep hr fun hl => hl.finalized hK hs hr.found hfin fun hreq hof hne =>
      hc hreq _ hr.found hof hne
  | reconciled hby =>
    exact hrep hby.replaced fun hl => hl.keep rfl
      (member_reconciled hK (hs _ _ hby.replaced.found) _ _ _ _ _ hby.state)
  | maintained hsweeps hret =>
    rw [hmoved, retired_census hsweeps hret]
    exact Lawful.swept hK hsweeps hlaw

/-- What the attempts of the request `r` hold of `K` together. -/
def History.requestHeld (r : String) (K : AllowanceKey) (h : History) : ℤ :=
  ((h.census.filter (OfRequest r K)).map fun e => e.2.heldUnder K).sum

/-- Some attempt of the request is in a state other than `not_executed`. -/
def History.Executed (r : String) (K : AllowanceKey) (h : History) : Prop :=
  ∃ e ∈ h.census, OfRequest r K e ∧ e.1 ≠ .notExecuted

instance (h : History) : Decidable (h.Executed r K) := Multiset.decidableExistsMultiset

/-- **Request counting**: in every run that respects the unit, if the
allowance is part of every plan of the request, the attempts of the
request hold one unit of it together while some attempt is not
`not_executed`, and nothing when all are. -/
theorem requestHeld_eq_one_iff_executed (r : String) (K : AllowanceKey) (hK : K.kind = .requests)
    (ops : List Op) (hrun : Along History.step (RequestStep r K) {} ops)
    (hactive : ∀ e ∈ (History.after ops).census, OfRequest r K e → e.2.plan.limitedBy K) :
    ((History.after ops).Executed r K → (History.after ops).requestHeld r K = 1) ∧
    (¬ (History.after ops).Executed r K → (History.after ops).requestHeld r K = 0) := by
  have hinit : History.RequestSound r K {} := ⟨wellFormed_empty, fun _ => SharesUnit.empty⟩
  have hsound : (History.after ops).RequestSound r K :=
    run_inv (History.requestSound_step hK) hinit hrun
  have hunit := hsound.lawful hactive
  have hsum : (History.after ops).requestHeld r K =
      ((requestGroup r K (History.after ops).census).map Member.holds).sum := by
    rw [requestGroup, Multiset.map_map]
    rfl
  rw [hsum]
  constructor
  · rintro ⟨e, he, hof, hstate⟩
    refine hunit.one ⟨member K e, mem_requestGroup.2 ⟨e, he, hof, rfl⟩, ?_⟩
    rw [member_of_live hstate]
  · intro hnone
    refine hunit.sum_eq_zero fun m hm => ?_
    obtain ⟨e, he, hof, rfl⟩ := mem_requestGroup.1 hm
    have hstate : e.1 = .notExecuted := by
      by_contra hne
      exact hnone ⟨e, he, hof, hne⟩
    rw [member, hstate]
    rfl

/-- The counter of a tenant's requests in the first minute. -/
def firstMinute : AllowanceKey := ⟨"t", .tenant, "t", .minute 0, .requests⟩

/-- A limit of ten requests per minute for the tenant. -/
def sampleLimit : Op :=
  .sync "t" "l" (some { scope := .tenant, scopeID := "t", requestsPerMinute := 10 }) 0

def refused (attemptID : String) : AttemptOutcome :=
  { tenantID := "t", requestID := "", attemptID := attemptID, state := some .notExecuted }

/-- A second attempt is begun while the first is under way, and refused. -/
def fallbackRefused : List Op :=
  [.configure sampleStore, sampleLimit, .begin none (samplePlan "r" "x") 1 1,
   .begin none (samplePlan "r" "y") 2 2, .finalize (refused "y") 3 3]

theorem fallbackRefused_holds_one :
    (History.after fallbackRefused).requestHeld "r" firstMinute = 1 := by
  have hactive : ∀ e ∈ (History.after fallbackRefused).census, OfRequest "r" firstMinute e →
      e.2.plan.limitedBy firstMinute := by decide
  refine (requestHeld_eq_one_iff_executed "r" firstMinute rfl fallbackRefused ?_ hactive).1
    (by decide)
  refine ⟨trivial, trivial, ?_, ?_, ?_, trivial⟩
  · -- no attempt yet
    intro _ _ _
    refine ⟨by decide, ?_⟩
    rintro ⟨e, he, -⟩
    exact absurd he (Multiset.notMem_zero e)
  · -- the first attempt is stored and under way
    intro _ _ _
    exact ⟨by decide, fun _ => ⟨⟨"t", "x"⟩, _, rfl, rfl, rfl, by decide⟩⟩
  · -- the second attempt holds nothing
    intro _ row hrow _ hne
    cases hrow
    exact absurd rfl hne

/-- The first attempt is refused and gives the unit back; the second one is
begun without it. -/
theorem fallback_after_refusal_holds_none :
    let h := History.after [.configure sampleStore, sampleLimit,
      .begin none (samplePlan "r" "x") 1 1, .finalize (refused "x") 2 2,
      .begin none (samplePlan "r" "y") 3 3]
    (∀ e ∈ h.census, OfRequest "r" firstMinute e → e.2.plan.limitedBy firstMinute) ∧
      h.Executed "r" firstMinute ∧ h.requestHeld "r" firstMinute = 0 := by
  exact ⟨by decide, by decide, by decide⟩

end Hoorific
