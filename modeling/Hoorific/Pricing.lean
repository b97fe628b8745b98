/-
What the estimates of package `policy` charge.  The tokens of a usage fall
into six categories, which partition its input and its output; a schedule
has a rate for some of them.  A charge is the exact sum of units times rate
over the categories, rounded up once (`estimateUsageCost_ok`), and a bound
is the same sum for a usage that puts every input token into the dearest
category (`estimateBound_ok`).

Two results are read off from these.  A counter that is absent never
decides a charge (`Usage.Fills.exactCost_eq`): wherever its value could
matter, the estimate is refused.  And a bound covers every charge within
its token counts (`Usage.exactCost_le`).
-/
import Mathlib.Algebra.Order.BigOperators.Group.List
import Mathlib.Data.Rat.Floor
import Mathlib.Tactic.LinearCombination
import Hoorific.Lib.Check
import Hoorific.Policy

namespace Hoorific

open List Check

/-! ### Rounding up -/

/-- What a term contributes to a sum. -/
def CostTerm.amount (t : CostTerm) : ℤ := t.units * t.rate

variable {terms : List CostTerm} {r v output : ℤ} {n : UsageCounts}
  {aggregate other writes : Option ℤ}

theorem sumTerms_ok {total : ℤ} (h : sumTerms total terms = .ok r) :
    (∀ t ∈ terms, 0 ≤ t.units ∧ 0 ≤ t.rate) ∧ r = total + (terms.map CostTerm.amount).sum := by
  induction terms generalizing total with
  | nil =>
    cases h
    simp
  | cons t terms ih =>
    unfold sumTerms at h
    split at h
    next => cases h
    next hpos =>
      have ht : 0 ≤ t.units ∧ 0 ≤ t.rate := by omega
      rw [map_cons, sum_cons, forall_mem_cons]
      split at h
      next hzero =>
        -- a skipped term contributes nothing
        have hamount : t.amount = 0 := mul_eq_zero.2 hzero
        rw [hamount, zero_add]
        exact ⟨⟨ht, (ih h).1⟩, (ih h).2⟩
      next =>
        rw [← add_assoc]
        exact ⟨⟨ht, (ih h).1⟩, (ih h).2⟩

theorem roundUp_eq_ceil {n unit : ℤ} (hn : 0 ≤ n) (hunit : 0 < unit) :
    (n + (unit - 1)).tdiv unit = ⌈(n : ℚ) / unit⌉ := by
  have hu : (0 : ℚ) < unit := Int.cast_pos.2 hunit
  rw [Int.tdiv_eq_ediv_of_nonneg (by omega), eq_comm, Int.ceil_eq_iff, lt_div_iff₀ hu,
    div_le_iff₀ hu]
  have hmod := Int.emod_add_mul_ediv (n + (unit - 1)) unit
  have hlow := Int.emod_nonneg (n + (unit - 1)) hunit.ne'
  have hhigh := Int.emod_lt_of_pos (n + (unit - 1)) hunit
  generalize (n + (unit - 1)) / unit = q at hmod ⊢
  constructor
  · have hlt : (q - 1) * unit < n := by
      rw [sub_mul, mul_comm]
      omega
    exact_mod_cast hlt
  · have hle : n ≤ q * unit := by
      rw [mul_comm]
      omega
    exact_mod_cast hle

/-- An estimate is the sum of its terms, rounded up. -/
theorem estimateTerms_ok {c : ℤ} (h : estimateTerms terms 1000000 = .ok c) :
    (∀ t ∈ terms, 0 ≤ t.units ∧ 0 ≤ t.rate) ∧
      c = ⌈((terms.map CostTerm.amount).sum : ℚ) / 1000000⌉ := by
  simp only [estimateTerms, show ¬ (1000000 : ℤ) ≤ 0 by omega, if_false, bind_ok] at h
  obtain ⟨total, htotal, h⟩ := h
  split at h
  · cases h
  obtain ⟨hterms, htotal⟩ := sumTerms_ok htotal
  rw [zero_add] at htotal
  refine ⟨hterms, ?_⟩
  have hsum : 0 ≤ (terms.map CostTerm.amount).sum := by
    refine sum_nonneg ?_
    rintro x hx
    obtain ⟨t, ht, rfl⟩ := mem_map.1 hx
    exact mul_nonneg (hterms t ht).1 (hterms t ht).2
  rw [← Except.ok.inj h, htotal, roundUp_eq_ceil hsum (show (0 : ℤ) < 1000000 by omega),
    Int.cast_ofNat]

/-! ### Categories -/

/-- What a token is charged as. -/
inductive CostCategory where
  | ordinary | cached | write5m | write1h | remainingWrites | output
deriving DecidableEq

/-- The categories of input tokens. -/
def CostCategory.inputs : List CostCategory :=
  [.ordinary, .cached, .write5m, .write1h, .remainingWrites]

/-- The tokens of a usage in a category; an absent counter counts nothing. -/
def Usage.units (u : Usage) : CostCategory → ℤ
  | .ordinary => u.input.getD 0 - (u.cachedInput.getD 0 + u.cacheWriteInput.getD 0)
  | .cached => u.cachedInput.getD 0
  | .write5m => u.cacheWrite5mInput.getD 0
  | .write1h => u.cacheWrite1hInput.getD 0
  | .remainingWrites =>
    u.cacheWriteInput.getD 0 - (u.cacheWrite5mInput.getD 0 + u.cacheWrite1hInput.getD 0)
  | .output => u.output.getD 0

/-- The rate of a category.  Cache writes of a lifetime without a rate of its
own have the aggregate one. -/
def PriceSchedule.rate (p : PriceSchedule) : CostCategory → Option ℤ
  | .ordinary => p.inputPerMillion
  | .cached => p.cachedInputPerMillion
  | .write5m => p.cacheWrite5mPerMillion <|> p.cacheWriteInputPerMillion
  | .write1h => p.cacheWrite1hPerMillion <|> p.cacheWriteInputPerMillion
  | .remainingWrites => p.cacheWriteInputPerMillion
  | .output => p.outputPerMillion

/-- The rate of a category under a schedule that may be missing. -/
def rateOf (price : Option PriceSchedule) (category : CostCategory) : Option ℤ :=
  price.bind fun p => p.rate category

/-- The sum of units times rate over the categories. -/
def Usage.exactCost (u : Usage) (price : Option PriceSchedule) : ℤ :=
  ((CostCategory.inputs ++ [CostCategory.output]).map fun category =>
    u.units category * (rateOf price category).getD 0).sum

/-- What the checks on the counters establish: the categories partition the
input and the output. -/
structure Usage.Partitioned (u : Usage) : Prop where
  input : ∃ input, u.input = some input ∧ (CostCategory.inputs.map u.units).sum = input
  output : ∃ output, u.output = some output ∧ u.units .output = output
  nonneg : ∀ category, 0 ≤ u.units category

/-- Every category that has tokens has a rate. -/
def Usage.PricedBy (u : Usage) (price : Option PriceSchedule) : Prop :=
  ∀ category, 0 < u.units category → ∃ rate, rateOf price category = some rate ∧ 0 ≤ rate

/-! ### The charge of a usage -/

variable {u u' : Usage} {price : Option PriceSchedule} {c : ℤ}

/-- The counters after the checks are those of the usage, and they partition it. -/
theorem usageCounts_ok (h : usageCounts (some u) = .ok n) :
    u.Partitioned ∧ u.input = some n.input ∧ u.output = some n.output ∧
      n.cached = u.cachedInput.getD 0 ∧ n.writes = u.cacheWriteInput.getD 0 ∧
      n.write5m = u.cacheWrite5mInput.getD 0 ∧ n.write1h = u.cacheWrite1hInput.getD 0 := by
  simp only [usageCounts] at h
  split at h
  next input output hinput houtput =>
    split at h
    next => cases h
    next hneg =>
    split at h
    next => cases h
    split at h
    next => cases h
    next =>
    rcases hdetails : checkedAdd (u.cacheWrite5mInput.getD 0) (u.cacheWrite1hInput.getD 0) with e | d
    · rw [hdetails] at h
      cases h
    rw [hdetails] at h
    simp only at h
    split at h
    next => cases h
    rcases hinputs : checkedAdd (u.cachedInput.getD 0) (u.cacheWriteInput.getD 0) with e | d'
    · rw [hinputs] at h
      cases h
    rw [hinputs] at h
    simp only at h
    split at h
    next => cases h
    cases h
    obtain ⟨h5m, h1h, -, rfl⟩ := checkedAdd_ok_iff.1 hdetails
    obtain ⟨hread, hwrite, -, rfl⟩ := checkedAdd_ok_iff.1 hinputs
    have hout : 0 ≤ output := by
      by_contra hlt
      exact hneg (any_eq_true.2 ⟨some output, by simp [houtput], by simpa using hlt⟩)
    refine ⟨⟨⟨input, hinput, ?_⟩, ⟨output, houtput, ?_⟩, ?_⟩, hinput, houtput, rfl, rfl, rfl, rfl⟩
    · simp only [CostCategory.inputs, map_cons, map_nil, sum_cons, sum_nil,
        Usage.units, hinput, Option.getD_some]
      omega
    · simp [Usage.units, houtput]
    · intro category
      cases category with
      | ordinary =>
        simp only [Usage.units, hinput, Option.getD_some]
        omega
      | cached | write5m | write1h => assumption
      | remainingWrites =>
        simp only [Usage.units]
        omega
      | output => simpa [Usage.units, houtput] using hout
  next => cases h

theorem priceRate_ok {rate r : Option ℤ} :
    priceRate rate = .ok r ↔ r = rate ∧ ∀ v, rate = some v → 0 ≤ v := by
  unfold priceRate
  split
  next => simp [eq_comm]
  next v =>
    split
    next hneg => simp [hneg]
    next hneg => simp [eq_comm, not_lt.1 hneg]

/-- The terms charge the units at the rate, which is there if it is needed. -/
structure Charges (terms : List CostTerm) (units : ℤ) (rate : Option ℤ) : Prop where
  amount : (terms.map CostTerm.amount).sum = units * rate.getD 0
  priced : 0 < units → ∃ r, rate = some r ∧ 0 ≤ r

theorem charges_none (rate : Option ℤ) : Charges [] 0 rate :=
  ⟨by simp, fun h => absurd h (lt_irrefl 0)⟩

theorem charges_one (hr : 0 ≤ r) (units : ℤ) : Charges [⟨units, r⟩] units (some r) :=
  ⟨by simp [CostTerm.amount], fun _ => ⟨r, rfl, hr⟩⟩

theorem chargeTerm_ok {units : ℤ} {rate : Option ℤ} (hunits : 0 ≤ units)
    (h : chargeTerm units rate = .ok terms) : Charges terms units rate := by
  unfold chargeTerm at h
  split at h
  next =>
    obtain ⟨r, hrequired, hterms⟩ := bind_ok.1 h
    cases hterms
    obtain ⟨rate', hrate, hr⟩ := bind_ok.1 hrequired
    obtain ⟨rfl, hnonneg⟩ := priceRate_ok.1 hrate
    cases rate' with
    | none => cases hr
    | some v =>
      obtain rfl := Except.ok.inj hr
      exact charges_one (hnonneg v rfl) units
  next hzero =>
    cases h
    obtain rfl : units = 0 := by omega
    exact charges_none rate

theorem appendWrite_ok {units : ℤ} {rate : Option ℤ} (haggregate : ∀ v, aggregate = some v → 0 ≤ v)
    (h : appendWrite units rate aggregate = .ok terms) :
    Charges terms units (rate <|> aggregate) := by
  unfold appendWrite at h
  split at h
  next hzero =>
    cases h
    rw [hzero]
    exact charges_none _
  next =>
    obtain ⟨rate', hrate, hterms⟩ := bind_ok.1 h
    obtain ⟨rfl, hnonneg⟩ := priceRate_ok.1 hrate
    cases rate' with
    | some v =>
      cases hterms
      exact charges_one (hnonneg v rfl) units
    | none =>
      cases aggregate with
      | none => cases hterms
      | some v =>
        cases hterms
        exact charges_one (haggregate v rfl) units

/-- What an estimate knows of the counters that are absent: the category is
empty because another one has all the tokens, or it makes no difference. -/
structure Usage.Known (u : Usage) (p : PriceSchedule) : Prop where
  cached : u.cachedInput = none → (p.rate .cached).isSome → 0 < u.input.getD 0 →
    u.cacheWriteInput = u.input
  writes : u.cacheWriteInput = none → (p.rate .write5m).isSome ∨ (p.rate .write1h).isSome →
    0 < u.input.getD 0 → u.cachedInput = u.input
  write5m : u.cacheWrite5mInput = none → 0 < u.cacheWriteInput.getD 0 →
    u.cacheWrite1hInput = u.cacheWriteInput ∨ p.rate .write5m = p.rate .remainingWrites
  write1h : u.cacheWrite1hInput = none → 0 < u.cacheWriteInput.getD 0 →
    u.cacheWrite5mInput = u.cacheWriteInput ∨ p.rate .write1h = p.rate .remainingWrites

theorem eq_some_of_getD {o : Option ℤ} (hsome : o.isSome = true) (hv : o.getD 0 = v) :
    o = some v := by
  obtain ⟨w, rfl⟩ := Option.isSome_iff_exists.1 hsome
  rw [← hv, Option.getD_some]

/-- Writes of one lifetime: the other lifetime has them all, or the rate is the
aggregate one. -/
theorem lifetime_known {rate : Option ℤ} (hwrites : 0 < writes.getD 0)
    (h : other = none ∨ ¬ other.getD 0 = writes.getD 0 → rate.isSome = true →
      aggregate.isSome = true ∧ rate = aggregate) :
    other = writes ∨ (rate <|> aggregate) = aggregate := by
  rcases rate with - | r
  · exact .inr rfl
  by_cases hother : other = none ∨ ¬ other.getD 0 = writes.getD 0
  · exact .inr (h hother rfl).2
  obtain ⟨hsome, hall⟩ := not_or.1 hother
  have hwritten : writes.isSome = true := by
    rcases writes with - | w
    · exact absurd hwrites (lt_irrefl 0)
    · rfl
  left
  rw [eq_some_of_getD (Option.isSome_iff_ne_none.2 hsome) (not_not.1 hall)]
  exact (eq_some_of_getD hwritten rfl).symm

theorem known_of_categoryUnknown {p : PriceSchedule} (hcounts : usageCounts (some u) = .ok n)
    (h : categoryUnknown u n p = false) : u.Known p := by
  obtain ⟨-, hinput, -, hcached, hwrites, h5m, h1h⟩ := usageCounts_ok hcounts
  simp only [categoryUnknown, Bool.or_eq_false_iff] at h
  obtain ⟨⟨hreads, hwritten⟩, hdetails⟩ := h
  refine ⟨?_, ?_, ?_, ?_⟩
  · intro hnone hrate hpos
    simp only [PriceSchedule.rate] at hrate
    simp [hnone, hrate, hinput, hwrites] at hreads hpos
    rw [hinput]
    exact eq_some_of_getD (hreads hpos).1 (hreads hpos).2
  · intro hnone hrate hpos
    have hconfigured : (p.cacheWriteInputPerMillion.isSome = true ∨
        p.cacheWrite5mPerMillion.isSome = true) ∨ p.cacheWrite1hPerMillion.isSome = true := by
      simp [PriceSchedule.rate] at hrate
      tauto
    simp [hnone, hinput, hcached] at hwritten hpos
    rw [hinput]
    exact eq_some_of_getD (hwritten hpos hconfigured).1 (hwritten hpos hconfigured).2
  · intro hnone hpos
    simp [hnone, hwrites, h1h] at hdetails
    exact lifetime_known hpos (hdetails hpos).1
  · intro hnone hpos
    simp [hnone, hwrites, h5m] at hdetails
    exact lifetime_known hpos (hdetails hpos).2

/-- The categories of the input: they are not negative, and make up the input. -/
theorem Usage.Partitioned.inputs (h : u.Partitioned) {input : ℤ} (hinput : u.input = some input) :
    u.units .ordinary + u.units .cached + u.units .write5m + u.units .write1h +
      u.units .remainingWrites = input ∧ 0 ≤ u.units .ordinary ∧ 0 ≤ u.units .cached ∧
      0 ≤ u.units .write5m ∧ 0 ≤ u.units .write1h ∧ 0 ≤ u.units .remainingWrites := by
  obtain ⟨input', hinput', hsum⟩ := h.input
  cases hinput.symm.trans hinput'
  refine ⟨?_, h.nonneg _, h.nonneg _, h.nonneg _, h.nonneg _, h.nonneg _⟩
  rw [← hsum]
  simp only [CostCategory.inputs, map_cons, map_nil, sum_cons, sum_nil]
  omega

theorem Usage.Partitioned.units_eq_zero (h : u.Partitioned) (hinput : u.input = some 0)
    (houtput : u.output = some 0) (category : CostCategory) : u.units category = 0 := by
  obtain ⟨hsum, hordinary, hcached, h5m, h1h, hremaining⟩ := h.inputs hinput
  cases category with
  | ordinary | cached | write5m | write1h | remainingWrites => omega
  | output => simp [Usage.units, houtput]

theorem Usage.exactCost_some (u : Usage) (p : PriceSchedule) : u.exactCost (some p) =
    u.units .ordinary * (p.rate .ordinary).getD 0 + u.units .cached * (p.rate .cached).getD 0 +
    u.units .write5m * (p.rate .write5m).getD 0 + u.units .write1h * (p.rate .write1h).getD 0 +
    u.units .remainingWrites * (p.rate .remainingWrites).getD 0 +
    u.units .output * (p.rate .output).getD 0 := by
  simp only [Usage.exactCost, CostCategory.inputs, cons_append, nil_append,
    map_cons, map_nil, sum_cons, sum_nil, rateOf, Option.bind_some]
  omega

theorem Usage.exactCost_none (u : Usage) : u.exactCost none = 0 := by
  simp [Usage.exactCost, rateOf, CostCategory.inputs]

/-- **What a charge is**: the exact sum over categories that partition the
usage, each with its rate, rounded up once. -/
theorem estimateUsageCost_ok (h : estimateUsageCost (some u) price = .ok c) :
    u.Partitioned ∧ u.PricedBy price ∧ c = ⌈(u.exactCost price : ℚ) / 1000000⌉ ∧
      ∀ p, price = some p → u.Known p := by
  obtain ⟨n, hcounts, h⟩ := bind_ok.1 h
  obtain ⟨hpart, hinput, houtput, hcached, hwrites, h5m, h1h⟩ := usageCounts_ok hcounts
  cases price with
  | none =>
    simp only at h
    split at h
    next hzero =>
      cases h
      rw [hzero.1] at hinput
      rw [hzero.2] at houtput
      refine ⟨hpart, ?_, ?_, ?_⟩
      · intro category hpos
        exact absurd hpos (hpart.units_eq_zero hinput houtput category).not_gt
      · simp [u.exactCost_none]
      · intro p hp
        cases hp
    next => cases h
  | some p =>
    simp only at h
    split at h
    next => cases h
    next hknown =>
    simp only [bind_ok] at h
    obtain ⟨ordinary, hordinary, cached, hread, aggregate, haggregate, write5m, hwrite5m, write1h,
      hwrite1h, writes, hwritten, output, hout, h⟩ := h
    obtain ⟨rfl, hnonneg⟩ := priceRate_ok.1 haggregate
    -- each list of terms charges one category
    have hordinary : Charges ordinary (u.units .ordinary) (p.rate .ordinary) := by
      have hunits : u.units .ordinary = n.input - (n.cached + n.writes) := by
        simp [Usage.units, hinput, hcached, hwrites]
      exact hunits ▸ chargeTerm_ok (hunits ▸ hpart.nonneg .ordinary) hordinary
    have hread : Charges cached (u.units .cached) (p.rate .cached) := by
      rw [hcached] at hread
      exact chargeTerm_ok (hpart.nonneg .cached) hread
    have hwrite5m : Charges write5m (u.units .write5m) (p.rate .write5m) := by
      rw [h5m] at hwrite5m
      exact appendWrite_ok hnonneg hwrite5m
    have hwrite1h : Charges write1h (u.units .write1h) (p.rate .write1h) := by
      rw [h1h] at hwrite1h
      exact appendWrite_ok hnonneg hwrite1h
    have hwritten : Charges writes (u.units .remainingWrites) (p.rate .remainingWrites) := by
      rw [hwrites, h5m, h1h] at hwritten
      exact chargeTerm_ok (hpart.nonneg .remainingWrites) hwritten
    have hout : Charges output (u.units .output) (p.rate .output) := by
      have hunits : u.units .output = n.output := by simp [Usage.units, houtput]
      exact hunits ▸ chargeTerm_ok (hunits ▸ hpart.nonneg .output) hout
    obtain ⟨-, hc⟩ := estimateTerms_ok h
    refine ⟨hpart, ?_, ?_, ?_⟩
    · intro category hpos
      cases category with
      | ordinary => exact hordinary.priced hpos
      | cached => exact hread.priced hpos
      | write5m => exact hwrite5m.priced hpos
      | write1h => exact hwrite1h.priced hpos
      | remainingWrites => exact hwritten.priced hpos
      | output => exact hout.priced hpos
    · rw [hc, u.exactCost_some, ← hordinary.amount, ← hread.amount, ← hwrite5m.amount,
        ← hwrite1h.amount, ← hwritten.amount, ← hout.amount]
      simp only [map_append, sum_append]
    · intro p' hp'
      cases hp'
      exact known_of_categoryUnknown hcounts (Bool.eq_false_iff.2 hknown)

/-! ### Absent counters -/

/-- A counter that may have been absent was given a value. -/
def Filled (counter counter' : Option ℤ) : Prop :=
  counter' = counter ∨ counter = none ∧ ∃ v, counter' = some v ∧ 0 ≤ v

/-- `u'` is `u` with values for some of its absent details. -/
structure Usage.Fills (u u' : Usage) : Prop where
  input : u'.input = u.input
  output : u'.output = u.output
  total : u'.total = u.total
  source : u'.source = u.source
  cachedInput : Filled u.cachedInput u'.cachedInput
  cacheWriteInput : Filled u.cacheWriteInput u'.cacheWriteInput
  cacheWrite5mInput : Filled u.cacheWrite5mInput u'.cacheWrite5mInput
  cacheWrite1hInput : Filled u.cacheWrite1hInput u'.cacheWrite1hInput
  reasoningOutput : Filled u.reasoningOutput u'.reasoningOutput
  toolInput : Filled u.toolInput u'.toolInput

theorem Filled.eq_of_some {counter counter' : Option ℤ} (h : Filled counter counter')
    (hv : counter = some v) : counter' = some v := by
  rcases h with rfl | ⟨hnone, -⟩
  · exact hv
  · cases hnone.symm.trans hv

/-- What is known of the writes of one lifetime carries to the filled usage:
either nothing was filled in, or the rate is the aggregate one. -/
theorem lifetime_difference {own own' other' : Option ℤ} {rate aggregate : ℤ}
    (hown : Filled own own') (hother : Filled other other')
    (hknown : own = none → 0 < writes.getD 0 → other = writes ∨ rate = aggregate)
    (hnonneg : 0 ≤ other'.getD 0) (hfits : own'.getD 0 + other'.getD 0 ≤ writes.getD 0) :
    (own'.getD 0 - own.getD 0) * (rate - aggregate) = 0 := by
  rcases hown with rfl | ⟨hnone, v, rfl, hv⟩
  · rw [sub_self, zero_mul]
  rw [hnone, Option.getD_some, Option.getD_none, sub_zero]
  rw [Option.getD_some] at hfits
  by_cases hwrites : 0 < writes.getD 0
  · rcases hknown hnone hwrites with hall | hsame
    · -- the other lifetime has all the writes
      obtain ⟨w, rfl⟩ : ∃ w, writes = some w := by
        rcases writes with - | w
        · exact absurd hwrites (lt_irrefl 0)
        · exact ⟨w, rfl⟩
      rw [hother.eq_of_some hall] at hfits
      obtain rfl : v = 0 := by omega
      rw [zero_mul]
    · rw [hsame, sub_self, mul_zero]
  · obtain rfl : v = 0 := by omega
    rw [zero_mul]

section Fills

variable {p : PriceSchedule} (hfills : u.Fills u') (hknown : u.Known p) (hpart : u'.Partitioned)
  (hpriced : u'.PricedBy (some p))

include hfills hknown hpart hpriced

/-- Cache reads that were not counted are none. -/
theorem Usage.Fills.cached_eq : u'.cachedInput.getD 0 = u.cachedInput.getD 0 := by
  rcases hfills.cachedInput with hsame | ⟨hnone, v, hv, hnonneg⟩
  · rw [hsame]
  rw [hv, hnone, Option.getD_some, Option.getD_none]
  by_contra hne
  have hpos : 0 < u'.units .cached := by
    simp only [Usage.units, hv, Option.getD_some]
    omega
  obtain ⟨rate, hrate, -⟩ := hpriced .cached hpos
  obtain ⟨input, hinput, -⟩ := hpart.input
  obtain ⟨hsum, hordinary, -, h5m, h1h, hremaining⟩ := hpart.inputs hinput
  -- the writes are all of the input, which leaves no room for reads
  have hwrites : u.cacheWriteInput = u.input :=
    hknown.cached hnone (Option.isSome_of_eq_some hrate) (by
      rw [← hfills.input, hinput, Option.getD_some]
      omega)
  have hall : u'.cacheWriteInput = some input :=
    hfills.cacheWriteInput.eq_of_some (by rw [hwrites, ← hfills.input, hinput])
  simp only [Usage.units, hinput, hall, hv, Option.getD_some] at hordinary
  omega

/-- Cache writes that were not counted are none. -/
theorem Usage.Fills.writes_eq : u'.cacheWriteInput.getD 0 = u.cacheWriteInput.getD 0 := by
  rcases hfills.cacheWriteInput with hsame | ⟨hnone, v, hv, hnonneg⟩
  · rw [hsame]
  rw [hv, hnone, Option.getD_some, Option.getD_none]
  by_contra hne
  obtain ⟨input, hinput, -⟩ := hpart.input
  obtain ⟨hsum, hordinary, hcached, h5m, h1h, -⟩ := hpart.inputs hinput
  have hparts : u'.units .write5m + u'.units .write1h + u'.units .remainingWrites = v := by
    simp only [Usage.units, hv, Option.getD_some]
    omega
  -- whichever part of the writes is not empty has a rate
  have hrate : (p.rate .write5m).isSome = true ∨ (p.rate .write1h).isSome = true := by
    by_cases h5pos : 0 < u'.units .write5m
    · obtain ⟨rate, hrate, -⟩ := hpriced .write5m h5pos
      exact .inl (Option.isSome_of_eq_some hrate)
    by_cases h1pos : 0 < u'.units .write1h
    · obtain ⟨rate, hrate, -⟩ := hpriced .write1h h1pos
      exact .inr (Option.isSome_of_eq_some hrate)
    obtain ⟨rate, hrate, -⟩ := hpriced .remainingWrites (by omega)
    have haggregate : p.cacheWriteInputPerMillion = some rate := hrate
    simp [PriceSchedule.rate, haggregate]
  have hreads : u.cachedInput = u.input := hknown.writes hnone hrate (by
    rw [← hfills.input, hinput, Option.getD_some]
    omega)
  have hall : u'.cachedInput = some input :=
    hfills.cachedInput.eq_of_some (by rw [hreads, ← hfills.input, hinput])
  simp only [Usage.units, hinput, hall, hv, Option.getD_some] at hordinary
  omega

/-- **An absent counter decides nothing**: where both usages are charged, their
exact costs are the same. -/
theorem Usage.Fills.exactCost_eq : u'.exactCost (some p) = u.exactCost (some p) := by
  have hcached := hfills.cached_eq hknown hpart hpriced
  have hwrites := hfills.writes_eq hknown hpart hpriced
  have h5nonneg := hpart.nonneg .write5m
  have h1nonneg := hpart.nonneg .write1h
  have hremaining := hpart.nonneg .remainingWrites
  simp only [Usage.units] at h5nonneg h1nonneg hremaining
  have h5m := lifetime_difference hfills.cacheWrite5mInput hfills.cacheWrite1hInput
    (fun hnone hpos => (hknown.write5m hnone hpos).imp_right (congrArg fun r : Option ℤ => r.getD 0))
    h1nonneg (by omega)
  have h1h := lifetime_difference hfills.cacheWrite1hInput hfills.cacheWrite5mInput
    (fun hnone hpos => (hknown.write1h hnone hpos).imp_right (congrArg fun r : Option ℤ => r.getD 0))
    h5nonneg (by omega)
  rw [Usage.exactCost_some, Usage.exactCost_some]
  simp only [Usage.units, hcached, hwrites, hfills.input, hfills.output]
  linear_combination h5m + h1h

end Fills

/-- **Cost is never guessed**: an estimate is the sum of units times rate over
categories that partition the usage, rounded up; and no value of a counter
that is absent would give another estimate. -/
theorem cost_never_guessed (u : Usage) (price : Option PriceSchedule) (c : ℤ)
    (h : estimateUsageCost (some u) price = .ok c) :
    (∀ u', u.Fills u' → estimateUsageCost (some u') price = .ok c ∨
      ∃ e, estimateUsageCost (some u') price = .error e) ∧
    u.Partitioned ∧ u.PricedBy price ∧ c = ⌈(u.exactCost price : ℚ) / 1000000⌉ := by
  obtain ⟨hpart, hpriced, hc, hknown⟩ := estimateUsageCost_ok h
  refine ⟨fun u' hfills => ?_, hpart, hpriced, hc⟩
  rcases h' : estimateUsageCost (some u') price with e | c'
  · exact .inr ⟨e, rfl⟩
  obtain ⟨hpart', hpriced', hc', -⟩ := estimateUsageCost_ok h'
  left
  rw [hc', hc]
  cases price with
  | none => rw [u.exactCost_none, u'.exactCost_none]
  | some p => rw [hfills.exactCost_eq (hknown p rfl) hpart' hpriced']

/-- Three dollars a million input tokens, fifteen a million output tokens. -/
def plainSchedule : PriceSchedule :=
  { version := "v1", inputPerMillion := some 3000000, outputPerMillion := some 15000000 }

/-- Without rates for the categories the counters of the categories may be absent. -/
theorem plain_cost_never_guessed :
    estimateUsageCost (some { input := some 10, output := some 5 }) (some plainSchedule) = .ok 105 ∧
    ∀ u' : Usage, Usage.Fills { input := some 10, output := some 5 } u' →
      estimateUsageCost (some u') (some plainSchedule) = .ok 105 ∨
      ∃ e, estimateUsageCost (some u') (some plainSchedule) = .error e :=
  ⟨by decide, (cost_never_guessed _ _ 105 (by decide)).1⟩

/-! ### The bound -/

/-- The loop over the input rates keeps the best rate, or finds a better one. -/
theorem highestRate_ok {rates : List (Option ℤ)} {best r : Option ℤ}
    (h : highestRate best rates = .ok r) :
    ∀ v, some v ∈ best :: rates → ∃ w, r = some w ∧ v ≤ w := by
  induction rates generalizing best with
  | nil =>
    cases h
    intro v hv
    rw [mem_singleton] at hv
    exact ⟨v, hv.symm, le_refl v⟩
  | cons candidate rates ih =>
    obtain ⟨rate, hrate, hrest⟩ := bind_ok.1 h
    obtain ⟨rfl, -⟩ := priceRate_ok.1 hrate
    intro w hw
    rcases rate with - | v
    · have hrest : highestRate best rates = .ok r := by cases best <;> exact hrest
      exact ih hrest w (by simpa using hw)
    rcases best with - | b
    · exact ih hrest w (by simpa using hw)
    obtain ⟨top, htop, hmax⟩ := ih hrest _ mem_cons_self
    rw [mem_cons, mem_cons, ← or_assoc] at hw
    rcases hw with hw | hw
    · split at hmax <;> grind
    · exact ih hrest w (mem_cons_of_mem _ hw)

/-- The rate a schedule bounds its input with, and its output rate. -/
theorem estimateBound_ok {input b : ℤ} {p : PriceSchedule}
    (h : estimateBound input output (some p) = .ok b) :
    ∃ top rate : ℤ, 0 ≤ top ∧ 0 ≤ rate ∧
      (∀ category ∈ CostCategory.inputs, ∀ r, p.rate category = some r → r ≤ top) ∧
      (∀ r, p.rate .output = some r → r = rate) ∧
      b = ⌈((input * top + output * rate : ℤ) : ℚ) / 1000000⌉ := by
  unfold estimateBound at h
  split at h
  next => cases h
  next =>
    obtain ⟨best, hbest, hrest⟩ := bind_ok.1 h
    split at hrest
    next => cases hrest
    obtain ⟨outputRate, hrate, hrest⟩ := bind_ok.1 hrest
    obtain ⟨rfl, hout⟩ := priceRate_ok.1 hrate
    split at hrest
    next => cases hrest
    obtain ⟨hterms, hb⟩ := estimateTerms_ok hrest
    simp only [forall_mem_cons] at hterms
    refine ⟨best.getD 0, p.outputPerMillion.getD 0, hterms.1.2, hterms.2.1.2, ?_, ?_, ?_⟩
    · -- the rate of an input category is one of those the loop looks at
      have hmax : ∀ r, some r ∈ [p.inputPerMillion, p.cachedInputPerMillion,
          p.cacheWriteInputPerMillion, p.cacheWrite5mPerMillion, p.cacheWrite1hPerMillion] →
          r ≤ best.getD 0 := by
        intro r hr
        obtain ⟨w, rfl, hw⟩ := highestRate_ok hbest r (mem_cons_of_mem _ hr)
        exact hw
      intro category hmem r hr
      apply hmax
      cases category with
      | ordinary | cached | remainingWrites =>
        simp only [PriceSchedule.rate] at hr
        simp [hr]
      | write5m | write1h =>
        rcases (Option.orElse_eq_some _ _ _).1 hr with hr | ⟨-, hr⟩ <;> simp [hr]
      | output => simp [CostCategory.inputs] at hmem
    · intro r hr
      have hr : p.outputPerMillion = some r := hr
      rw [hr, Option.getD_some]
    · rw [hb]
      simp [CostTerm.amount]

/-- The exact cost of a usage is at most that of its token counts at the
highest input rate. -/
theorem Usage.exactCost_le {p : PriceSchedule} {input top rate : ℤ} (hpart : u.Partitioned)
    (hpriced : u.PricedBy (some p)) (hinput : ∀ i, u.input = some i → i ≤ input)
    (houtput : ∀ o, u.output = some o → o ≤ output) (htop : 0 ≤ top) (hrate : 0 ≤ rate)
    (hmax : ∀ category ∈ CostCategory.inputs, ∀ r, p.rate category = some r → r ≤ top)
    (hout : ∀ r, p.rate .output = some r → r = rate) :
    u.exactCost (some p) ≤ input * top + output * rate := by
  -- a category without tokens costs nothing at any rate
  have hcat : ∀ category m, (∀ r, p.rate category = some r → r ≤ m) →
      u.units category * (p.rate category).getD 0 ≤ u.units category * m := by
    intro category m hm
    rcases (hpart.nonneg category).eq_or_lt with hzero | hpos
    · rw [← hzero, zero_mul, zero_mul]
    obtain ⟨r, hr, -⟩ := hpriced category hpos
    rw [show p.rate category = some r from hr]
    exact mul_le_mul_of_nonneg_left (hm r hr) hpos.le
  have hin : ∀ category ∈ CostCategory.inputs,
      u.units category * (p.rate category).getD 0 ≤ u.units category * top :=
    fun category h => hcat category top (hmax category h)
  simp only [CostCategory.inputs, forall_mem_cons] at hin
  obtain ⟨hordinary, hcached, h5m, h1h, hremaining, -⟩ := hin
  have hlast := hcat .output rate fun r hr => (hout r hr).le
  obtain ⟨i, hi, -⟩ := hpart.input
  obtain ⟨o, ho, hunits⟩ := hpart.output
  have hsum := (hpart.inputs hi).1
  calc u.exactCost (some p)
      ≤ u.units .ordinary * top + u.units .cached * top + u.units .write5m * top +
          u.units .write1h * top + u.units .remainingWrites * top + u.units .output * rate := by
        rw [u.exactCost_some]
        gcongr
    _ = i * top + o * rate := by
        rw [← hsum, hunits]
        ring
    _ ≤ input * top + output * rate := by
        gcongr
        · exact hinput i hi
        · exact houtput o ho

/-- **The reserved cost covers the charged cost.** -/
theorem bound_covers_charge (price : Option PriceSchedule) (input output : ℤ) (u : Usage) (b c : ℤ)
    (hinput : ∀ i, u.input = some i → i ≤ input) (houtput : ∀ o, u.output = some o → o ≤ output)
    (hb : estimateBound input output price = .ok b)
    (hc : estimateUsageCost (some u) price = .ok c) : c ≤ b := by
  obtain ⟨hpart, hpriced, hc, -⟩ := estimateUsageCost_ok hc
  cases price with
  | none =>
    unfold estimateBound at hb
    split at hb <;> cases hb
  | some p =>
    obtain ⟨top, rate, htop, hrate, hmax, hout, hb⟩ := estimateBound_ok hb
    rw [hc, hb]
    gcongr
    exact Usage.exactCost_le hpart hpriced hinput houtput htop hrate hmax hout

/-- A charge with cache reads, which the bound counts at the full rate. -/
theorem cached_charge_covered :
    ∃ b c, estimateBound 10 2 (some { plainSchedule with cachedInputPerMillion := some 500000 })
        = .ok b ∧
      estimateUsageCost
        (some { input := some 10, output := some 2, cachedInput := some 4, cacheWriteInput := some 0 })
        (some { plainSchedule with cachedInputPerMillion := some 500000 }) = .ok c ∧ c ≤ b :=
  ⟨60, 50, by decide, by decide, bound_covers_charge
    (some { plainSchedule with cachedInputPerMillion := some 500000 }) 10 2
    { input := some 10, output := some 2, cachedInput := some 4, cacheWriteInput := some 0 } 60 50
    (by rintro i ⟨⟩; decide) (by rintro o ⟨⟩; decide) (by decide) (by decide)⟩

end Hoorific
