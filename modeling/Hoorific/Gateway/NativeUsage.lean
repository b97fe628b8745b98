/-
How honest the usage of a native job is.  A counter is read from the first
of two members that has one, and `null` reads as zero there; a total that
is not given is a 64-bit sum.  So the usage says what the provider said
unless a counter is `null` or the sum overflows.  What `FinalizeAttempt`
settles with is checked again: a total that overflowed is negative there,
and refused.
-/
import Hoorific.Jobs.Native
import Hoorific.Store.Settled

namespace Hoorific

section

variable (ms : List (String × Json))

/-- The member a counter is read from. -/
def usageMember (name alternative : String) : String :=
  if (usageCounter ms name).isSome then name else alternative

/-- The usage of the members of an object. -/
def usageOf : Usage :=
  let input := usageCounter ms (usageMember ms "input" "input_tokens")
  let output := usageCounter ms (usageMember ms "output" "output_tokens")
  { input := input
    output := output
    total := (usageCounter ms "total").orElse fun _ =>
      input.bind fun i => output.map fun o => addInt64 i o
    source := "upstream" }

/-- The members `nativeUsage` reads. -/
def usageMembers (data : Json) (path : String) : Option (List (String × Json)) :=
  if path = "" then none else (data.field path).bind Json.members

/-- The counters are those of the members they are read from, and a total that
is not given is the sum. -/
structure HonestUsage (u : Usage) : Prop where
  input : ∀ n ∈ u.input, memberOf (usageMember ms "input" "input_tokens") ms = some (.int n)
  output : ∀ n ∈ u.output, memberOf (usageMember ms "output" "output_tokens") ms = some (.int n)
  total : ∀ n ∈ u.total, usageCounter ms "total" = some n → memberOf "total" ms = some (.int n)
  sum : usageCounter ms "total" = none → ∀ n ∈ u.total, ∃ i ∈ u.input, ∃ o ∈ u.output, n = i + o

/-- No attempt is settled with a negative total of the usage, or with one that
is not the sum. -/
def SettledExactly (u : Usage) : Prop :=
  ∀ env o, o.usage = some u → ∀ total ∈ (evidence env o).usage.bind Usage.total, 0 ≤ total ∧
    ((evidence env o).totalKnown = true → ∀ input ∈ u.input, ∀ output ∈ u.output,
      total = input + output)

/-- No member that a counter is read from is `null`, and the sum fits if there
is no total. -/
structure CountersGiven : Prop where
  input : memberOf (usageMember ms "input" "input_tokens") ms ≠ some .null
  output : memberOf (usageMember ms "output" "output_tokens") ms ≠ some .null
  total : memberOf "total" ms ≠ some .null
  sum : usageCounter ms "total" = none → ∀ i ∈ (usageOf ms).input, ∀ o ∈ (usageOf ms).output,
    -2 ^ 63 ≤ i + o ∧ i + o < 2 ^ 63

end

variable {ms : List (String × Json)} {u : Usage} {name : String}

theorem nativeUsage_eq (data : Json) (path : String) :
    nativeUsage data path = (usageMembers data path).map usageOf := by
  have hread : ∀ ms name alternative,
      ((usageCounter ms name).orElse fun _ => usageCounter ms alternative) =
        usageCounter ms (usageMember ms name alternative) := by
    intro ms name alternative
    rcases h : usageCounter ms name with - | n <;> simp [usageMember, h]
  unfold nativeUsage usageMembers
  split
  · rfl
  rcases (data.field path).bind Json.members with - | ms
  · rfl
  simp only [hread, Option.map_some, usageOf]
  rcases usageCounter ms (usageMember ms "input" "input_tokens") with - | i
  · rfl
  · rcases usageCounter ms (usageMember ms "output" "output_tokens") with - | o <;> rfl

/-- A counter is that of its member unless the member is `null`. -/
theorem usageCounter_honest_iff :
    (∀ n ∈ usageCounter ms name, memberOf name ms = some (.int n)) ↔ memberOf name ms ≠ some .null := by
  unfold usageCounter
  split
  next n h =>
    split <;> simp [h]
  next h => simp [h]
  next _ hnull => exact iff_of_true nofun hnull

theorem totalled_total {t : ℤ} (hvalid : u.negative = false)
    (h : u.totalled.1.bind Usage.total = some t) :
    0 ≤ t ∧ (u.totalled.2.2 = true → ∀ i ∈ u.input, ∀ o ∈ u.output, t = i + o) := by
  have htotal : ∀ n, u.total = some n → 0 ≤ n := by
    intro n hn
    simp only [Usage.negative, List.any_cons, Bool.or_eq_false_iff, hn, Option.any_some,
      decide_eq_false_iff_not, not_lt] at hvalid
    exact hvalid.2.2.1
  unfold Usage.totalled at h ⊢
  split at h
  next i o hi ho =>
    split at h
    next => exact ⟨htotal t h, by rintro ⟨⟩⟩
    next sum hsum _ =>
      obtain ⟨hi', ho', -, rfl⟩ := checkedAdd_ok_iff.1 hsum
      cases h
      simp [hi, ho, add_nonneg hi' ho']
    next sum total hsum hgiven =>
      obtain ⟨-, -, -, rfl⟩ := checkedAdd_ok_iff.1 hsum
      cases hgiven.symm.trans h
      simp [hi, ho, htotal t hgiven]
  next hmissing =>
    refine ⟨htotal t h, fun _ i hi o ho => absurd ho (hmissing i o hi)⟩

theorem settledExactly (u : Usage) : SettledExactly u := by
  intro env o ho total htotal
  obtain ⟨husage, hknown, -⟩ := evidence_usage env o
  rw [husage, ho, normalizeUsage_some] at htotal
  rw [hknown, ho, normalizeUsage_some]
  rcases hvalid : u.negative with - | -
  · rw [hvalid, if_neg Bool.false_ne_true] at htotal
    exact totalled_total hvalid htotal
  · rw [hvalid] at htotal
    cases htotal

theorem usageOf_total : (usageOf ms).total = (usageCounter ms "total").orElse fun _ =>
    (usageOf ms).input.bind fun i => (usageOf ms).output.map fun o => addInt64 i o := rfl

theorem total_honest_iff :
    (∀ n ∈ (usageOf ms).total, usageCounter ms "total" = some n →
      memberOf "total" ms = some (.int n)) ↔ memberOf "total" ms ≠ some .null := by
  rw [← usageCounter_honest_iff, usageOf_total]
  rcases usageCounter ms "total" with - | n <;> simp

/-- A sum is exact if it fits. -/
theorem sum_honest_iff (h : usageCounter ms "total" = none) :
    (∀ n ∈ (usageOf ms).total, ∃ i ∈ (usageOf ms).input, ∃ o ∈ (usageOf ms).output, n = i + o) ↔
      ∀ i ∈ (usageOf ms).input, ∀ o ∈ (usageOf ms).output, -2 ^ 63 ≤ i + o ∧ i + o < 2 ^ 63 := by
  have hsum : ∀ i o : ℤ, addInt64 i o = i + o ↔ -2 ^ 63 ≤ i + o ∧ i + o < 2 ^ 63 := by
    unfold addInt64
    omega
  rw [usageOf_total, h]
  rcases (usageOf ms).input with - | i
  · simp
  rcases (usageOf ms).output with - | o
  · simp
  · simpa using hsum i o

/-- **The usage of a job is honest** exactly if no counter it is read from is
`null` and no sum overflows; what is settled is exact in any case. -/
theorem native_usage_honest_iff (data : Json) (path : String) :
    (∀ ms ∈ usageMembers data path, ∀ u ∈ nativeUsage data path,
      HonestUsage ms u ∧ SettledExactly u) ↔
    ∀ ms ∈ usageMembers data path, CountersGiven ms := by
  refine forall₂_congr fun ms hms => ?_
  rw [nativeUsage_eq, hms]
  constructor
  · intro h
    obtain ⟨hinput, houtput, htotal, hsum⟩ := (h (usageOf ms) rfl).1
    exact ⟨usageCounter_honest_iff.1 hinput, usageCounter_honest_iff.1 houtput,
      total_honest_iff.1 htotal, fun hnone => (sum_honest_iff hnone).1 (hsum hnone)⟩
  · rintro h _ ⟨⟩
    exact ⟨⟨usageCounter_honest_iff.2 h.input, usageCounter_honest_iff.2 h.output,
      total_honest_iff.2 h.total, fun hnone => (sum_honest_iff hnone).2 (h.sum hnone)⟩,
      settledExactly _⟩

/-- A job whose counters are `null` is settled as free. -/
theorem null_usage_counts_zero :
    let data := Json.obj [("usage", .obj [("input", .null), ("output", .null)])]
    nativeUsage data "usage" =
        some { input := some 0, output := some 0, total := some 0, source := "upstream" } ∧
      ¬ ∀ ms ∈ usageMembers data "usage", ∀ u ∈ nativeUsage data "usage",
        HonestUsage ms u ∧ SettledExactly u := by
  refine ⟨rfl, fun h => ?_⟩
  cases (h _ rfl _ rfl).1.input 0 rfl

end Hoorific
