/-
Hold conservation.  Read as a `Pool`, a history has the counters as its
balance and one hold for every attempt ever inserted, retired ones
included.  Every operation performs pool steps (`step_refines`): admission
opens a hold, settlement, acceptance, reconciliation and the deadline
sweep revise one, policy changes and retention change nothing.  The
balance law of `Lib/Escrow` then holds in every run, and at a single
counter row it says that `reserved` is the sum of `held`
(`reserved_eq_heldUnder`).
-/
import Hoorific.Lib.Escrow
import Hoorific.Store.Runs

namespace Hoorific

open List Table

/-! ### The pool of a store -/

/-- Counters and holds of a store, with the holds of attempts it has lost. -/
def Store.pool (s : Store) (lost : Multiset (AllowanceKey → ℤ)) : Pool (AllowanceKey → ℤ) :=
  ⟨s.reserved, (Table.rows s.attempts).map (fun row => row.data.holds) + lost⟩

variable {s s' : Store} {lost : Multiset (AllowanceKey → ℤ)}

theorem pool_eq_of_policyOnly (h : PolicyOnly s s') : s'.pool lost = s.pool lost := by
  rw [Store.pool, Store.pool, h.reserved, h.attempts]

variable {k : AttemptKey} {row : AttemptRow} {now : ℤ} {h : History} {env : AttemptEnvelope}

theorem Admitted.pool_step (h : Admitted s s' k row) : Pool.Step (s.pool lost) (s'.pool lost) := by
  rw [Store.pool, Store.pool, h.reserved, h.attempts,
    rows_insert_of_lookup_none h.fresh, Multiset.map_cons, Multiset.cons_add]
  exact Pool.Step.open _ _ _

theorem Replaced.pool_step {row' : AttemptRow} (h : Replaced s s' k row row') :
    Pool.Step (s.pool lost) (s'.pool lost) := by
  obtain ⟨hold, hnew⟩ := rows_insert_of_lookup h.found row'
  have hres : s'.reserved = s.reserved + (row'.data.holds - row.data.holds) := by
    rw [← add_sub_assoc, ← h.reserved, add_sub_cancel_right]
  rw [Store.pool, Store.pool, h.attempts, hold, hnew, hres, Multiset.map_cons, Multiset.map_cons,
    Multiset.cons_add, Multiset.cons_add]
  exact Pool.Step.revise _ _ _ _

theorem sweeps_pool_step (h : Relation.ReflTransGen (SweepStep now) s s') :
    Pool.Step (s.pool lost) (s'.pool lost) := by
  induction h with
  | refl => exact Pool.Step.refl _
  | tail _ hstep ih =>
    obtain ⟨k, row, hsw⟩ := hstep
    exact ih.trans hsw.replaced.pool_step

/-- Deleting retired attempts moves their holds to the lost ones. -/
theorem retired_pool_eq {s₁ : Store} (hsweeps : Relation.ReflTransGen (SweepStep now) s s₁)
    (hret : RetiredBy now s₁ s') :
    s'.pool (lost + ((retiredBy s s').map fun a => a.2.holds : List _)) = s₁.pool lost := by
  have hres : s'.reserved = s₁.reserved := by
    rw [hret.frame]
    rfl
  rw [Store.pool, Store.pool, hres, retired_rows hsweeps hret, Multiset.map_add, Multiset.map_coe,
    map_map, retiredBy, map_map, add_assoc, add_comm lost]
  rfl

/-! ### Every operation performs pool steps -/

theorem retiredBy_of_insert {t : Store} (hs : t.attempts = s.attempts)
    (h : s'.attempts = t.attempts.insert k row) :
    retiredBy s s' = [] := by
  refine retiredBy_eq_nil fun k' row' hrow' => ?_
  rw [h, AList.mem_insert, hs]
  exact .inr (mem_of_lookup hrow')

/-- **Refinement**: an operation performs pool steps, where what retention
deletes is still counted. -/
theorem Effect.pool_step {op : Op} (h : Effect s s' op) (lost : Multiset (AllowanceKey → ℤ)) :
    Pool.Step (s.pool lost)
      (s'.pool (lost + ((retiredBy s s').map fun a => a.2.holds : List _))) := by
  -- all but maintenance keep every attempt
  have hnil : ∀ {t : Store}, retiredBy s t = [] →
      t.pool (lost + ((retiredBy s t).map fun a => a.2.holds : List _)) = t.pool lost := by
    intro t ht
    rw [ht, map_nil, Multiset.coe_nil, add_zero]
  have hrep : ∀ {k row row'}, Replaced s s' k row row' → Pool.Step (s.pool lost)
      (s'.pool (lost + ((retiredBy s s').map fun a => a.2.holds : List _))) := by
    intro k row row' hrep
    rw [hnil (retiredBy_of_insert rfl hrep.attempts)]
    exact hrep.pool_step
  cases h with
  | policy h =>
    have hsame : retiredBy s s' = [] :=
      retiredBy_eq_nil fun k row hrow => h.attempts ▸ mem_of_lookup hrow
    rw [hnil hsame, pool_eq_of_policyOnly h]
    exact Pool.Step.refl _
  | configured h =>
    have hatt : s'.attempts = s.attempts := by rw [h]; rfl
    have hsame : retiredBy s s' = [] := retiredBy_eq_nil fun k row hrow => hatt ▸ mem_of_lookup hrow
    have hres : s'.reserved = s.reserved := by rw [h]; rfl
    rw [hnil hsame, Store.pool, Store.pool, hatt, hres]
    exact Pool.Step.refl _
  | admitted _ _ hpolicy _ _ hadm =>
    rw [hnil (retiredBy_of_insert hpolicy.attempts hadm.attempts), ← pool_eq_of_policyOnly hpolicy]
    exact hadm.pool_step
  | accepted _ hr _ | finalized _ hr _ => exact hrep hr
  | reconciled hby => exact hrep hby.replaced
  | maintained hsweeps hret =>
    rw [retired_pool_eq hsweeps hret]
    exact sweeps_pool_step hsweeps

/-- A history as a pool: one hold for every attempt ever inserted. -/
def History.pool (h : History) : Pool (AllowanceKey → ℤ) :=
  h.store.pool ((h.retired.map fun a => a.2.holds : List _))

theorem History.step_refines (hs : WellFormed h.store) (op : Op) :
    Pool.Step h.pool (h.step op).pool := by
  have hstep := (execute_effect op hs).pool_step ((h.retired.map fun a => a.2.holds : List _))
  simpa [History.pool, History.step] using hstep

/-! ### The law at one counter row -/

/-- What an attempt holds under a key: the sum of `held` over the indices
whose allowance has the scope, window and kind of the key. -/
def AttemptEnvelope.heldUnder (env : AttemptEnvelope) (k : AllowanceKey) : ℤ :=
  (((env.plan.allowances.zip env.held).filter fun e => e.1.key k.tenantID == k).map Prod.snd).sum

/-- What the attempts of the key's tenant hold together, over all attempts
ever inserted. -/
def History.heldUnder (h : History) (k : AllowanceKey) : ℤ :=
  ((h.attempts.filter fun a => a.1.tenantID == k.tenantID).map fun a => a.2.heldUnder k).sum

theorem sum_zipWith_heldAt (t : String) (k : AllowanceKey) :
    ∀ (as : List Allowance) (hs : List ℤ), (List.zipWith (heldAt t) as hs).sum k =
      (((as.zip hs).filter fun e => e.1.key t == k).map Prod.snd).sum
  | [], _ => rfl
  | _ :: _, [] => rfl
  | a :: as, g :: hs => by
    have ih := sum_zipWith_heldAt t k as hs
    simp only [zipWith_cons_cons, sum_cons, Pi.add_apply, ih, zip_cons_cons, heldAt]
    by_cases hk : a.key t = k
    · subst hk
      simp
    · have hne : (a.key t == k) = false := by simpa using hk
      rw [Pi.single_eq_of_ne (Ne.symm hk), filter_cons_of_neg (by simp [hne]), zero_add]

theorem holds_eq_heldUnder {k : AllowanceKey} (h : env.plan.tenantID = k.tenantID) :
    env.holds k = env.heldUnder k := by
  rw [AttemptEnvelope.holds, h]
  exact sum_zipWith_heldAt _ _ _ _

theorem holds_eq_zero {k : AllowanceKey} (h : env.plan.tenantID ≠ k.tenantID) :
    env.holds k = 0 := by
  rw [AttemptEnvelope.holds, sum_zipWith_heldAt]
  rw [filter_eq_nil_iff.2]
  · rfl
  · rintro ⟨a, g⟩ -
    have hkey : a.key env.plan.tenantID ≠ k := fun hk => h (by rw [← hk]; rfl)
    simpa using hkey

/-- What an accounting history keeps. -/
structure History.Sound (h : History) : Prop where
  wellFormed : WellFormed h.store
  retired : ∀ a ∈ h.retired, a.2.plan.tenantID = a.1.tenantID
  balanced : h.pool.Balanced

theorem History.sound_step (h : History) (op : Op) (hh : h.Sound) : (h.step op).Sound where
  wellFormed := (execute_effect op hh.wellFormed).wellFormed hh.wellFormed
  retired := by
    rintro ⟨k, env⟩ hmem
    rcases mem_append.1 hmem with hold | hnew
    · exact hh.retired _ hold
    · obtain ⟨row, hrow, rfl, -⟩ := mem_retiredBy.1 hnew
      exact (hh.wellFormed k row hrow).tenantID
  balanced := (History.step_refines hh.wellFormed op).balanced hh.balanced

theorem History.sound_after (ops : List Op) : (History.after ops).Sound := by
  refine run_inv_of_step History.sound_step ?_ ops
  refine ⟨wellFormed_empty, ?_, ?_⟩
  · intro a ha
    cases ha
  · show (⟨_, _⟩ : Pool _).Balanced
    exact Pool.balanced_empty

/-- In a balanced history a counter is the sum of what is held under its key. -/
theorem History.Sound.reserved_eq (hh : h.Sound) (k : AllowanceKey) :
    h.store.reserved k = h.heldUnder k := by
  have htenant : ∀ a ∈ h.attempts, a.2.plan.tenantID = a.1.tenantID := by
    rintro ⟨k', env⟩ hmem
    rcases mem_append.1 hmem with hstored | hretired
    · obtain ⟨⟨k₀, row⟩, hentry, he⟩ := mem_map.1 hstored
      cases he
      exact (hh.wellFormed k₀ row (mem_entries_iff.1 hentry)).tenantID
    · exact hh.retired _ hretired
  have hall : h.store.reserved = ((h.attempts.map fun a => a.2.holds).sum) := by
    have hbal := hh.balanced
    simp only [Pool.Balanced, History.pool, Store.pool, Table.rows, Multiset.map_coe,
      Multiset.coe_add, Multiset.sum_coe] at hbal
    rw [hbal]
    simp [History.attempts, Function.comp_def]
  rw [hall, History.heldUnder]
  generalize h.attempts = l at htenant
  induction l with
  | nil => rfl
  | cons a l ih =>
    have ih' := ih fun b hb => htenant b (mem_cons_of_mem _ hb)
    have ha := htenant a mem_cons_self
    rw [map_cons, sum_cons, Pi.add_apply, ih']
    by_cases ht : a.1.tenantID = k.tenantID
    · rw [filter_cons_of_pos (by simpa using ht), map_cons, sum_cons,
        holds_eq_heldUnder (ha.trans ht)]
    · rw [filter_cons_of_neg (by simpa using ht), holds_eq_zero (ha.trans_ne ht), zero_add]

/-- **Hold conservation**: after every run, every counter row is the sum of
what the attempts ever inserted hold under its key; and an operation that
fails leaves the store as it was. -/
theorem reserved_eq_heldUnder (ops : List Op) :
    (∀ k row, (History.after ops).store.allowances.lookup k = some row →
      row.reserved = (History.after ops).heldUnder k) ∧
    ∀ (op : Op) (e : StoreError) (s' : Store),
      op.execute (History.after ops).store = (.error e, s') →
      s' = (History.after ops).store := by
  constructor
  · intro k row hrow
    have hres := (History.sound_after ops).reserved_eq k
    rw [← hres, Store.reserved, hrow]
    rfl
  · intro op e s' herr
    exact Tx.commit_error herr

end Hoorific
