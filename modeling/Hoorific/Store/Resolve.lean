/-
One allowance per limit.  `resolveAllowances` walks over the rows of
`policy_limits` and gives the plan one allowance for every matching row.
A row whose window has passed is counted under the current window, and a
row for that window is added; the old row stays.  The cursor comes to the
added row if it stands after the old one, so a plan has two allowances of
one limit already at the first rollover, and one more at each that follows.

A row keeps its limit: scope, kind and the period of its window, whatever
instance of the window it is resolved to.  What the walk does to the tables
and the plan is `Walked`: every allowance is of the limit of a row there was
(`source`), every matching row is counted (`covers`), and the rows it adds
stand where the cursor may pass (`rows`).  A plan is free of duplicates as
long as every limit has one matching row and none is rolled over ahead of
the cursor.  The reservation loop then takes of each counter exactly what
the attempt needs (`reserveAllowances_exact`).
-/
import Mathlib.Algebra.BigOperators.Pi
import Hoorific.Store.Runs

namespace Hoorific

open List Tx

/-! ### Limits -/

/-- The limit a row belongs to, without the instance of its window. -/
def AllowanceKey.limit (k : AllowanceKey) : ScopeKind × String × Window × AllowanceKind :=
  (k.scopeKind, k.scopeID, k.windowID.window, k.kind)

/-- The limit an allowance was resolved from. -/
def Allowance.limit (a : Allowance) : ScopeKind × String × Window × AllowanceKind :=
  (a.scopeKind, a.scopeID, a.windowID.window, a.kind)

/-- The rows used for a plan. -/
def matchingLimits (s : Store) (p : AttemptPlan) : List (AllowanceKey × PolicyLimitRow) :=
  (tenantLimits s p.tenantID).filter (limitMatches p)

/-- No two rows used for a plan belong to the same limit, and no row is rolled
over to one that the cursor has still to pass. -/
def SingleRows (s : Store) (p : AttemptPlan) (now : ℤ) : Prop :=
  ((matchingLimits s p).map fun e => e.1.limit).Nodup ∧
    ∀ e ∈ matchingLimits s p, e.1.rolled now = e.1 ∨ (e.1.rolled now).texts < e.1.texts

instance (s : Store) (p : AttemptPlan) (now : ℤ) : Decidable (SingleRows s p now) :=
  inferInstanceAs (Decidable (_ ∧ _))

variable {k : AllowanceKey} {as as' : List Allowance} {e : AllowanceKey × PolicyLimitRow}
  {unbounded : String} {otherwise amount : ℤ} {seen : Bool} {a : Allowance}

theorem resolvedWindow_window {s : Store} {now : ℤ} {wid : WindowID}
    (h : resolvedWindow s k now = some wid) : wid.window = k.windowID.window := by
  unfold resolvedWindow at h
  split at h
  · cases h
    rfl
  split at h
  · cases h
  next hne =>
    cases h
    exact currentWindowID_window hne

variable {p plan : AttemptPlan} {now : ℤ} {s s' : Store}

/-- A row that is used and has a window to be counted in gives one allowance, of
its own limit; any other row gives none. -/
theorem resolveRow_limit (h : Runs (resolveRow p now as e) s as' s') :
    (¬ (limitMatches p e = true ∧ (resolvedWindow s e.1 now).isSome = true) ∧ as' = as) ∨
      (limitMatches p e = true ∧ (resolvedWindow s e.1 now).isSome = true) ∧
        ∃ a, as' = as ++ [a] ∧ a.limit = e.1.limit := by
  rcases resolveRow_cases h with ⟨hnone, rfl, -⟩ | ⟨wid, required, hmatch, hwid, -, rfl, -⟩
  · exact .inl ⟨hnone, rfl⟩
  · refine .inr ⟨⟨hmatch, Option.isSome_of_eq_some hwid⟩, _, rfl, ?_⟩
    rw [Allowance.limit, AllowanceKey.limit, resolvedWindow_window hwid]

/-- A row can be counted unless its window is some other text that is not an
open window of its own. -/
theorem resolvedWindow_isSome_iff :
    (resolvedWindow s k now).isSome = true ↔
      ∀ text, k.windowID = .other text → windowActive s k.tenantID k.windowID now = true := by
  unfold resolvedWindow
  constructor
  · intro h text htext
    by_contra hactive
    rw [if_neg hactive, htext] at h
    cases h
  · intro h
    split
    next => rfl
    next hactive =>
      split
      next hnone =>
        exfalso
        cases hwid : k.windowID with
        | total =>
          apply hactive
          rw [hwid]
          rfl
        | other text => exact hactive (h text hwid)
        | minute | daily | monthly =>
          rw [hwid] at hnone
          cases hnone
      next => rfl

/-- A resolution opens no window of another text. -/
theorem resolveRow_otherWindow (h : Runs (resolveRow p now as e) s as' s') (t text : String) :
    s'.quotaWindows.lookup (t, .other text) = s.quotaWindows.lookup (t, .other text) := by
  obtain ⟨k, row⟩ := e
  rcases resolveRow_cases h with ⟨-, -, rfl⟩ | ⟨wid, _, -, hwid, -, -, rfl⟩
  · rfl
  split
  · rfl
  next hactive =>
    -- the window that is opened has an id of its own
    have hcurrent : currentWindowID now k.windowID.window ≠ .other "" := by
      intro hnone
      rw [resolvedWindow, if_neg hactive, if_pos hnone] at hwid
      cases hwid
    have hne : ((t, .other text) : String × WindowID) ≠
        (k.tenantID, currentWindowID now k.windowID.window) := by
      intro heq
      have hother : currentWindowID now k.windowID.window = .other text :=
        (congrArg Prod.snd heq).symm
      have hwindow := currentWindowID_window hcurrent
      rw [hother] at hwindow
      rw [← hwindow] at hcurrent
      exact hcurrent rfl
    simp only [Store.rollWindow, Store.openAllowance, Store.addPolicyLimit]
    split <;> split <;> exact AList.lookup_insert_ne hne

theorem resolvedWindow_isSome_congr
    (h : ∀ t text, s'.quotaWindows.lookup (t, .other text) = s.quotaWindows.lookup (t, .other text))
    (k : AllowanceKey) (now : ℤ) :
    (resolvedWindow s' k now).isSome = true ↔ (resolvedWindow s k now).isSome = true := by
  rw [resolvedWindow_isSome_iff, resolvedWindow_isSome_iff]
  have hsame : ∀ text, windowActive s' k.tenantID (.other text) now =
      windowActive s k.tenantID (.other text) now := by
    intro text
    simp only [windowActive, h]
  constructor
  · intro hactive text htext
    rw [htext, ← hsame, ← htext]
    exact hactive text htext
  · intro hactive text htext
    rw [htext, hsame, ← htext]
    exact hactive text htext

/-- A row has a window to be counted in. -/
def countedAt (s : Store) (now : ℤ) (e : AllowanceKey × PolicyLimitRow) : Bool :=
  (resolvedWindow s e.1 now).isSome

theorem mem_matchingLimits {row : PolicyLimitRow} :
    (k, row) ∈ matchingLimits s p ↔ s.policyLimits.lookup k = some row ∧
      k.tenantID = p.tenantID ∧ limitMatches p (k, row) = true := by
  rw [matchingLimits, mem_filter, mem_tenantLimits, and_assoc]

/-! ### The walk -/

/-- What a resolved row leaves in the table: at most the row of the current
window is new. -/
theorem resolveRow_lookup (h : Runs (resolveRow p now as e) s as' s') (k : AllowanceKey) :
    s'.policyLimits.lookup k = s.policyLimits.lookup k ∨
      s.policyLimits.lookup k = none ∧ k = e.1.rolled now ∧ (e.1.rolled now).windowID ≠ .other "" ∧
        limitMatches p e = true ∧ (resolvedWindow s e.1 now).isSome = true := by
  rcases resolveRow_cases h with ⟨-, -, rfl⟩ | ⟨wid, _, hmatch, hwid, -, -, rfl⟩
  · exact .inl rfl
  split
  · exact .inl rfl
  next hactive =>
    rw [lookup_rollWindow]
    rcases hrow : s.policyLimits.lookup k with - | row
    · by_cases hk : k = e.1.rolled now
      · refine .inr ⟨rfl, hk, ?_, hmatch, Option.isSome_of_eq_some hwid⟩
        intro (hnone : currentWindowID now e.1.windowID.window = .other "")
        rw [resolvedWindow, if_neg hactive, if_pos hnone] at hwid
        cases hwid
      · exact .inl (by rw [if_neg hk]; rfl)
    · exact .inl rfl

theorem limit_rolled (h : (k.rolled now).windowID ≠ .other "") : (k.rolled now).limit = k.limit := by
  show (_, _, (currentWindowID now k.windowID.window).window, _) = _
  rw [currentWindowID_window h]
  rfl

/-- The current window of a current window is itself. -/
theorem rolled_rolled (h : (k.rolled now).windowID ≠ .other "") :
    (k.rolled now).rolled now = k.rolled now := by
  show ({ k with windowID := currentWindowID now (currentWindowID now k.windowID.window).window } :
    AllowanceKey) = _
  rw [currentWindowID_window h]
  rfl

/-- **What the walk has done** when the cursor has passed the keys `done`. -/
structure Walked (s : Store) (p : AttemptPlan) (now : ℤ) (done : List AllowanceKey)
    (as : List Allowance) (t : Store) : Prop where
  windows : ∀ tenant text, t.quotaWindows.lookup (tenant, .other text) =
    s.quotaWindows.lookup (tenant, .other text)
  kept : ∀ k row, s.policyLimits.lookup k = some row → t.policyLimits.lookup k = some row
  rows : ∀ k row, t.policyLimits.lookup k = some row → s.policyLimits.lookup k = some row ∨
    ∃ e ∈ matchingLimits s p, countedAt s now e = true ∧ k = e.1.rolled now ∧
      k.windowID ≠ .other ""
  source : ∀ a ∈ as, ∃ e ∈ matchingLimits s p, countedAt s now e = true ∧ a.limit = e.1.limit
  covers : ∀ e ∈ matchingLimits s p, e.1 ∈ done → countedAt s now e = true →
    ∃ a ∈ as, a.limit = e.1.limit

variable {done : List AllowanceKey} {t t' : Store}

theorem Walked.start : Walked s p now [] [] s :=
  ⟨fun _ _ => rfl, fun _ _ h => h, fun _ _ => .inl, by simp, by simp⟩

/-- The row at a key is one there was, or added for one there was. -/
theorem Walked.origin (h : Walked s p now done as t) (hk : k.tenantID = p.tenantID)
    {row : PolicyLimitRow} (hrow : t.policyLimits.lookup k = some row)
    (hmatch : limitMatches p (k, row) = true) (hsome : (resolvedWindow t k now).isSome = true) :
    ∃ e ∈ matchingLimits s p, countedAt s now e = true ∧ k.limit = e.1.limit ∧
      k.rolled now = e.1.rolled now := by
  rcases h.rows k row hrow with hold | ⟨e, he, hcounted, rfl, hne⟩
  · refine ⟨(k, row), mem_matchingLimits.2 ⟨hold, hk, hmatch⟩, ?_, rfl, rfl⟩
    exact (resolvedWindow_isSome_congr h.windows k now).1 hsome
  · exact ⟨e, he, hcounted, limit_rolled hne, rolled_rolled hne⟩

/-- **Step**: the cursor passes one key. -/
theorem Walked.step (h : Walked s p now done as t) (hk : k.tenantID = p.tenantID)
    (hkey : Runs (resolveKey p now as k) t as' t') : Walked s p now (done ++ [k]) as' t' := by
  rcases resolveKey_cases hkey with ⟨hnone, rfl, rfl⟩ | ⟨row, hlookup, hrow⟩
  · refine ⟨h.windows, h.kept, h.rows, h.source, fun e he hdone => ?_⟩
    rcases mem_append.1 hdone with hdone | hlast
    · exact h.covers e he hdone
    · -- nothing is at the key, so no row was there
      obtain rfl := mem_singleton.1 hlast
      rw [h.kept _ _ (mem_matchingLimits.1 he).1] at hnone
      cases hnone
  have hnew := resolveRow_lookup hrow
  refine ⟨fun tenant text => (resolveRow_otherWindow hrow tenant text).trans
    (h.windows tenant text), fun k' row' hold => ?_, fun k' row' hrow' => ?_, ?_, ?_⟩
  · rcases hnew k' with hsame | ⟨hnone, -⟩
    · rw [hsame]
      exact h.kept k' row' hold
    · rw [h.kept k' row' hold] at hnone
      cases hnone
  · rcases hnew k' with hsame | ⟨-, rfl, hne, hmatch, hsome⟩
    · rw [hsame] at hrow'
      exact h.rows k' row' hrow'
    · obtain ⟨e, he, hcounted, -, hrolled⟩ := h.origin hk hlookup hmatch hsome
      exact .inr ⟨e, he, hcounted, hrolled, hne⟩
  · rcases resolveRow_limit hrow with ⟨-, rfl⟩ | ⟨⟨hmatch, hsome⟩, b, rfl, hb⟩
    · exact h.source
    refine forall_mem_append.2 ⟨h.source, forall_mem_singleton.2 ?_⟩
    obtain ⟨e, he, hcounted, hlimit, -⟩ := h.origin hk hlookup hmatch hsome
    exact ⟨e, he, hcounted, hb.trans hlimit⟩
  · intro e he hdone hcounted
    rcases mem_append.1 hdone with hdone | hlast
    · obtain ⟨a, ha, hlimit⟩ := h.covers e he hdone hcounted
      rcases resolveRow_limit hrow with ⟨-, rfl⟩ | ⟨-, b, rfl, -⟩
      · exact ⟨a, ha, hlimit⟩
      · exact ⟨a, mem_append_left _ ha, hlimit⟩
    · obtain rfl := mem_singleton.1 hlast
      obtain ⟨hold, -, hmatch⟩ := mem_matchingLimits.1 he
      cases hlookup.symm.trans (h.kept _ _ hold)
      have hsome := (resolvedWindow_isSome_congr h.windows e.1 now).2 hcounted
      rcases resolveRow_limit hrow with ⟨hnot, -⟩ | ⟨-, b, rfl, hb⟩
      · exact absurd ⟨hmatch, hsome⟩ hnot
      · exact ⟨b, by simp, hb⟩

theorem cursorKeys_sorted (s : Store) (tenantID : String) (now : ℤ) :
    (cursorKeys s tenantID now).Nodup ∧
      (cursorKeys s tenantID now).Pairwise fun a b => a.texts ≤ b.texts := by
  have : Std.Total fun a b : AllowanceKey => a.texts ≤ b.texts := ⟨fun a b => le_total _ _⟩
  have : IsTrans AllowanceKey fun a b => a.texts ≤ b.texts := ⟨fun _ _ _ => le_trans⟩
  exact ⟨(perm_insertionSort _ _).nodup_iff.2 (nodup_dedup _), pairwise_insertionSort _ _⟩

/-- No limit has come twice: the rows after the cursor are those there were. -/
structure Distinct (s : Store) (p : AttemptPlan) (now : ℤ) (done : List AllowanceKey)
    (as : List Allowance) (t : Store) : Prop where
  ahead : ∀ k ∈ cursorKeys s p.tenantID now, k ∉ done →
    t.policyLimits.lookup k = s.policyLimits.lookup k
  source : ∀ a ∈ as, ∃ e ∈ matchingLimits s p, e.1 ∈ done ∧ a.limit = e.1.limit
  nodup : (as.map Allowance.limit).Nodup

theorem Distinct.step (h : Distinct s p now done as t) (hsingle : SingleRows s p now)
    (hpre : done ++ [k] <+: cursorKeys s p.tenantID now)
    (hkey : Runs (resolveKey p now as k) t as' t') : Distinct s p now (done ++ [k]) as' t' := by
  obtain ⟨hkeys, hsorted⟩ := cursorKeys_sorted s p.tenantID now
  have hmem : k ∈ cursorKeys s p.tenantID now := hpre.subset (by simp)
  have hfresh : k ∉ done := by
    have hsub := hkeys.sublist hpre.sublist
    rw [nodup_append] at hsub
    exact fun hdone => hsub.2.2 k hdone k (mem_singleton_self k) rfl
  have hsource : ∀ a ∈ as, ∃ e ∈ matchingLimits s p, e.1 ∈ done ++ [k] ∧ a.limit = e.1.limit := by
    intro a ha
    obtain ⟨e, he, hdone, hlimit⟩ := h.source a ha
    exact ⟨e, he, mem_append_left _ hdone, hlimit⟩
  rcases resolveKey_cases hkey with ⟨-, rfl, rfl⟩ | ⟨row, hlookup, hrow⟩
  · exact ⟨fun k' hk' hnot => h.ahead k' hk' fun hdone => hnot (mem_append_left _ hdone), hsource,
      h.nodup⟩
  have hmatching : limitMatches p (k, row) = true → (k, row) ∈ matchingLimits s p := fun hmatch =>
    mem_matchingLimits.2 ⟨(h.ahead k hmem hfresh).symm.trans hlookup,
      tenantID_of_mem_cursorKeys hmem, hmatch⟩
  have hahead : ∀ k' ∈ cursorKeys s p.tenantID now, k' ∉ done ++ [k] →
      t'.policyLimits.lookup k' = s.policyLimits.lookup k' := by
    intro k' hk' hnot
    rw [mem_append, mem_singleton, not_or] at hnot
    rw [← h.ahead k' hk' hnot.1]
    refine (resolveRow_lookup hrow k').resolve_right ?_
    rintro ⟨-, rfl, -, hmatch, -⟩
    -- the row that is added stands before the cursor
    have hbefore := (hsingle.2 _ (hmatching hmatch)).resolve_left hnot.2
    obtain ⟨rest, hall⟩ := hpre
    rw [← hall, pairwise_append] at hsorted
    rw [← hall, mem_append, mem_append, mem_singleton] at hk'
    have hafter := hk'.resolve_left (not_or.2 hnot)
    exact absurd (hsorted.2.2 k (by simp) _ hafter) hbefore.not_ge
  rcases resolveRow_limit hrow with ⟨-, rfl⟩ | ⟨⟨hmatch, -⟩, a, rfl, ha⟩
  · exact ⟨hahead, hsource, h.nodup⟩
  refine ⟨hahead, forall_mem_append.2 ⟨hsource, forall_mem_singleton.2
    ⟨_, hmatching hmatch, by simp, ha⟩⟩, ?_⟩
  rw [map_append, nodup_append]
  refine ⟨h.nodup, nodup_singleton _, ?_⟩
  rintro l hl l' hl' rfl
  obtain rfl := mem_singleton.1 hl'
  obtain ⟨b, hb, hlimit⟩ := mem_map.1 hl
  obtain ⟨e', he', hdone, hb'⟩ := h.source b hb
  have hsame := inj_on_of_nodup_map hsingle.1 he' (hmatching hmatch)
    (hb'.symm.trans (hlimit.trans ha))
  rw [hsame] at hdone
  exact hfresh hdone

section

variable (h : Runs (resolveAllowances p now) s plan s')
include h

theorem resolveAllowances_walked :
    Walked s p now (cursorKeys s p.tenantID now) plan.allowances s' := by
  obtain ⟨as, hloop, rfl⟩ := resolveAllowances_runs h
  refine runs_foldlM_induct (Walked s p now) hloop Walked.start
    fun done k as t as' t' hpre hw hkey => ?_
  exact hw.step (tenantID_of_mem_cursorKeys (hpre.subset (by simp))) hkey

/-- The cursor passes every key at which there is a row in the end. -/
theorem resolveAllowances_passed {row : PolicyLimitRow} (hk : k.tenantID = p.tenantID)
    (hrow : s'.policyLimits.lookup k = some row) : k ∈ cursorKeys s p.tenantID now := by
  rcases (resolveAllowances_walked h).rows k row hrow with hold | ⟨e, he, -, rfl, -⟩
  · exact mem_cursorKeys.2 ⟨(k, row), mem_tenantLimits.2 ⟨hold, hk⟩, .inl rfl⟩
  · exact mem_cursorKeys.2 ⟨e, (mem_filter.1 he).1, .inr rfl⟩

/-- A matching row that has a window to be counted in has an allowance. -/
theorem resolveAllowances_covers (he : e ∈ matchingLimits s p) (hcounted : countedAt s now e = true) :
    ∃ a ∈ plan.allowances, a.limit = e.1.limit :=
  (resolveAllowances_walked h).covers e he
    (mem_cursorKeys.2 ⟨e, (mem_filter.1 he).1, .inl rfl⟩) hcounted

/-- A plan has an allowance of a kind exactly if some matching row of this kind
has a window to be counted in. -/
theorem resolveAllowances_kind
    (kind : AllowanceKind) : (∃ a ∈ plan.allowances, a.kind = kind) ↔
      ∃ e ∈ matchingLimits s p, e.1.kind = kind ∧ (resolvedWindow s e.1 now).isSome = true := by
  have hkind : ∀ {a : Allowance} {e : AllowanceKey × PolicyLimitRow}, a.limit = e.1.limit →
      a.kind = e.1.kind := fun hlimit => congrArg (fun l => l.2.2.2) hlimit
  constructor
  · rintro ⟨a, ha, rfl⟩
    obtain ⟨e, he, hcounted, hlimit⟩ := (resolveAllowances_walked h).source a ha
    exact ⟨e, he, (hkind hlimit).symm, hcounted⟩
  · rintro ⟨e, he, rfl, hcounted⟩
    obtain ⟨a, ha, hlimit⟩ := resolveAllowances_covers h he hcounted
    exact ⟨a, ha, hkind hlimit⟩

theorem resolveAllowances_nodup (hsingle : SingleRows s p now) :
    (plan.allowances.map Allowance.coordinates).Nodup := by
  obtain ⟨as, hloop, rfl⟩ := resolveAllowances_runs h
  have hlimits := (runs_foldlM_induct (Distinct s p now) hloop ⟨fun _ _ _ => rfl, by simp, nodup_nil⟩
    fun done k as t as' t' hpre hd hkey => hd.step hsingle hpre hkey).nodup
  -- the limit is a function of the coordinates
  have hof : as.map Allowance.limit = (as.map Allowance.coordinates).map
      fun c => (c.1, c.2.1, c.2.2.1.window, c.2.2.2) := by
    rw [map_map]
    rfl
  rw [hof] at hlimits
  exact hlimits.of_map

end

/-! ### What an admission takes -/

/-- What an attempt takes of an allowance: one unit of a count, its token or
cost bound of a volume, and no request unit if its request was seen. -/
def admissionUnits (p : AttemptPlan) (seenRequest : Bool) (a : Allowance) : ℤ :=
  match a.kind with
  | .requests => if seenRequest then 0 else 1
  | .tokens => p.inputBound.getD 0 + p.outputBound.getD 0
  | .cost => p.maximumCost.getD 0
  | .concurrency | .jobs => 1
  | .other _ => a.reserve

/-- A required number of tokens is known and not negative. -/
theorem requiredAmount_tokens (h : requiredAmount p unbounded .tokens otherwise = .ok amount) :
    0 ≤ amount ∧ amount = p.inputBound.getD 0 + p.outputBound.getD 0 := by
  unfold requiredAmount at h
  rcases hin : p.inputBound with - | input
  · simp [hin] at h
  rcases hout : p.outputBound with - | output
  · simp [hin, hout] at h
  simp only [hin, hout] at h
  rcases hsum : checkedAdd input output with e | sum
  · simp [hsum] at h
  simp only [hsum] at h
  cases h
  obtain ⟨hinput, houtput, -, rfl⟩ := checkedAdd_ok_iff.1 hsum
  exact ⟨Int.add_nonneg hinput houtput, rfl⟩

theorem requiredAmount_ok {kind : AllowanceKind}
    (h : requiredAmount p unbounded kind otherwise = .ok amount) :
    (kind = .tokens ∧ amount = p.inputBound.getD 0 + p.outputBound.getD 0) ∨
    (kind = .cost ∧ amount = p.maximumCost.getD 0) ∨
    (kind ≠ .tokens ∧ kind ≠ .cost ∧ amount = otherwise) := by
  cases kind with
  | tokens => exact .inl ⟨rfl, (requiredAmount_tokens h).2⟩
  | cost =>
    right
    left
    unfold requiredAmount at h
    rcases hcost : p.maximumCost with - | cost
    · simp [hcost] at h
    · simp only [hcost] at h
      exact ⟨rfl, (Except.ok.inj h).symm⟩
  | requests | concurrency | jobs | other =>
    exact .inr (.inr ⟨by simp, by simp, (Except.ok.inj h).symm⟩)

theorem admissionHold_units (h : admissionHold p seen a = .ok amount) :
    amount = admissionUnits p seen a := by
  unfold admissionHold at h
  rcases hreq : admissionAmount p a with e | needed <;> rw [hreq] at h
  · cases h
  obtain rfl : (if seen = true ∧ a.kind = .requests then 0 else needed) = amount := Except.ok.inj h
  rcases requiredAmount_ok hreq with ⟨hk, rfl⟩ | ⟨hk, rfl⟩ | ⟨ht, hc, rfl⟩
  · simp [admissionUnits, hk]
  · simp [admissionUnits, hk]
  rcases hk : a.kind with _ | _ | _ | _ | _ | text
  · simp [admissionUnits, hk]
  · exact absurd hk ht
  · simp [admissionUnits, hk]
  · simp [admissionUnits, hk]
  · exact absurd hk hc
  · simp [admissionUnits, hk]

/-- What a vector of holds has at a key. -/
theorem sum_heldAt_eq (t : String) {as : List Allowance} {held : List ℤ} {units : Allowance → ℤ}
    (hall : List.Forall₂ (fun a amount => amount = units a) as held) (k : AllowanceKey) :
    (List.zipWith (heldAt t) as held).sum k = (as.map fun a => heldAt t a (units a) k).sum := by
  have hheld : as.map units = held := by
    rw [← forall₂_eq_eq_eq, forall₂_map_left_iff]
    exact hall.imp fun _ _ => Eq.symm
  rw [← hheld, zipWith_map_right, zipWith_self, Pi.list_sum_apply, map_map]
  rfl

/-- What a vector of holds has at the key of one of its allowances, if no
other allowance has the same coordinates. -/
theorem sum_heldAt_of_nodup (t : String) {as : List Allowance} {held : List ℤ}
    {units : Allowance → ℤ} (hall : List.Forall₂ (fun a amount => amount = units a) as held)
    (hnodup : (as.map Allowance.coordinates).Nodup) (ha : a ∈ as) :
    (List.zipWith (heldAt t) as held).sum (a.key t) = units a := by
  -- an allowance with the same key has the same coordinates
  have hother : ∀ b, b ≠ a → b ∈ as → heldAt t b (units b) (a.key t) = 0 := by
    intro b hne hb
    refine Pi.single_eq_of_ne (fun hkey => hne (inj_on_of_nodup_map hnodup hb ha ?_)) _
    exact congrArg (fun k : AllowanceKey => (k.scopeKind, k.scopeID, k.windowID, k.kind)) hkey.symm
  rw [sum_heldAt_eq t hall, sum_map_eq_nsmul_single a _ hother,
    count_eq_one_of_mem hnodup.of_map ha, one_nsmul]
  exact Pi.single_eq_same _ _

/-- The reservation loop takes of every counter exactly what the attempt needs. -/
theorem reserveAllowances_exact {held : List ℤ}
    (hnodup : (plan.allowances.map Allowance.coordinates).Nodup)
    (h : Runs (plan.allowances.foldlM (reserveAllowance plan seen now) []) s held s')
    (ha : a ∈ plan.allowances) :
    s'.reserved (a.key plan.tenantID) =
      s.reserved (a.key plan.tenantID) + admissionUnits plan seen a := by
  obtain ⟨hheld, -, hres⟩ := reserveAllowances_runs h
  have hunits : List.Forall₂ (fun a amount => amount = admissionUnits plan seen a)
      plan.allowances held := hheld.imp fun _ _ => admissionHold_units
  rw [hres, Pi.add_apply, sum_heldAt_of_nodup _ hunits hnodup ha]

/-! ### Runs -/

/-- The operations that shape the policy tables: a change of the resources a
limit is read from, the projection of a limit, and a resolution. -/
inductive PolicyOp where
  | configure (configuration : Store)
  | sync (tenantID id : String) (next : Option PolicyLimitData) (now : ℤ)
  | resolve (plan : AttemptPlan) (now : ℤ)

def PolicyOp.body : PolicyOp → StoreTx Unit
  | .configure c => modify fun s => { s with resources := c.resources }
  | .sync tenantID id next now => syncPolicyLimit tenantID id next now
  | .resolve p now => do
    let _ ← resolveAllowances p now

def PolicyOp.step (s : Store) (op : PolicyOp) : Store := (commit op.body s).2

/-- Before a resolution every limit of the plan has one row, which is not rolled
over ahead of the cursor. -/
def ResolveStep (s : Store) : PolicyOp → Prop
  | .resolve p now => SingleRows s p now
  | _ => True

/-- **One allowance per limit**: in every run that resolves a plan only while
each of its limits has one row, which is not rolled over ahead of the cursor,
every plan resolved has at most one allowance for each scope, window and kind,
and an attempt admitted under it takes of each counter exactly what it needs. -/
theorem resolved_coordinates_nodup (ops : List PolicyOp)
    (h : Along PolicyOp.step ResolveStep {} ops) (i : ℕ) (p plan : AttemptPlan) (now : ℤ)
    (hi : ops[i]? = some (.resolve p now)) (s' : Store)
    (hrun : Runs (resolveAllowances p now) (run PolicyOp.step {} (ops.take i)) plan s') :
    (plan.allowances.map Allowance.coordinates).Nodup ∧
    ∀ (seenRequest : Bool) (at_ : ℤ) (t t' : Store) (held : List ℤ),
      Runs (plan.allowances.foldlM (reserveAllowance plan seenRequest at_) []) t held t' →
      ∀ a ∈ plan.allowances, t'.reserved (a.key plan.tenantID) =
        t.reserved (a.key plan.tenantID) + admissionUnits plan seenRequest a := by
  have hsplit : ops = ops.take i ++ .resolve p now :: ops.drop (i + 1) := by
    obtain ⟨hlt, hget⟩ := List.getElem?_eq_some_iff.1 hi
    rw [← hget, getElem_cons_drop, take_append_drop]
  rw [hsplit, Along.append] at h
  have hsingle : SingleRows (run PolicyOp.step {} (ops.take i)) p now := h.2.1
  have hnodup := resolveAllowances_nodup hrun hsingle
  refine ⟨hnodup, ?_⟩
  intro seen at_ t t' held hloop a ha
  exact reserveAllowances_exact hnodup hloop ha

/-- A limit of ten requests per minute, configured at 0, and a plan resolved at
`now`. -/
def limitThenResolve (now : ℤ) : List PolicyOp :=
  [.sync "t" "l" (some { scope := .tenant, scopeID := "t", requestsPerMinute := 10 }) 0,
   .resolve (samplePlan "r1" "x") now]

theorem resolved_before_rollover :
    ∃ plan s', Runs (resolveAllowances (samplePlan "r1" "x") 59)
        (run PolicyOp.step {} ((limitThenResolve 59).take 1)) plan s' ∧
      plan.allowances.length = 1 ∧ (plan.allowances.map Allowance.coordinates).Nodup := by
  refine ⟨_, _, rfl, rfl,
    (resolved_coordinates_nodup (limitThenResolve 59) ?_ 1 _ _ 59 rfl _ rfl).1⟩
  exact ⟨trivial, (by decide : SingleRows _ _ _), trivial⟩

/-- A plan that is resolved a minute later has two allowances of the one limit,
and admitting the attempt takes two of the ten requests. -/
theorem plan_at_rollover_takes_two :
    ∃ plan s' held t', Runs (resolveAllowances (samplePlan "r1" "x") 60)
        (run PolicyOp.step {} ((limitThenResolve 60).take 1)) plan s' ∧
      ¬ (plan.allowances.map Allowance.coordinates).Nodup ∧
      Runs (plan.allowances.foldlM (reserveAllowance plan false 60) []) s' held t' ∧
      t'.reserved ⟨"t", .tenant, "t", .minute 60, .requests⟩ =
        s'.reserved ⟨"t", .tenant, "t", .minute 60, .requests⟩ + 2 := by
  refine ⟨_, _, _, _, rfl, ?_, rfl, ?_⟩
  · decide
  · decide

end Hoorific
