/-
Runs of a deterministic system: a step function `σ → ι → σ`, folded over
a list of inputs.  The inputs of a step carry everything the environment
decides (arguments, clock readings), so "for every run" is "for every
list of inputs".

`Along step C s l` says that every step of the run of `l` from `s` is
taken in a state and with an input that satisfy `C`.  The induction over
runs is done here once, in `run_inv` (an invariant kept by every step that
meets `C` holds at the end of every run along `C`); a claim about every
state a run passes through follows by `Along.take`.
-/
import Mathlib.Data.List.Basic
import Mathlib.Data.Nat.Init

namespace Hoorific

variable {σ ι α : Type*}

/-- The state after the inputs `l`. -/
def run (step : σ → ι → σ) (s : σ) (l : List ι) : σ := l.foldl step s

/-- Every step of the run of `l` from `s` meets the condition `C`. -/
def Along (step : σ → ι → σ) (C : σ → ι → Prop) : σ → List ι → Prop
  | _, [] => True
  | s, i :: l => C s i ∧ Along step C (step s i) l

variable {step : σ → ι → σ} {C : σ → ι → Prop}

@[simp] theorem run_nil (s : σ) : run step s [] = s := rfl

@[simp] theorem run_cons (s : σ) (i : ι) (l : List ι) :
    run step s (i :: l) = run step (step s i) l := rfl

theorem run_append (s : σ) (l l' : List ι) : run step s (l ++ l') = run step (run step s l) l' :=
  List.foldl_append

variable {s : σ} {l : List ι} {I : σ → Prop} {n : ℕ}

theorem Along.append {l' : List ι} :
    Along step C s (l ++ l') ↔ Along step C s l ∧ Along step C (run step s l) l' := by
  induction l generalizing s with
  | nil => simp [Along]
  | cons i l ih => simp [Along, ih, and_assoc]

/-- A run along `C` is along `C` up to every state it passes through. -/
theorem Along.take (h : Along step C s l) (n : ℕ) : Along step C s (l.take n) := by
  rw [← List.take_append_drop n l, Along.append] at h
  exact h.1

/-- **Invariant rule**: what every step meeting `C` keeps, a run along `C` keeps. -/
theorem run_inv (hstep : ∀ s i, I s → C s i → I (step s i)) (h0 : I s) (h : Along step C s l) :
    I (run step s l) := by
  induction l generalizing s with
  | nil => exact h0
  | cons i l ih => exact ih (hstep s i h0 h.1) h.2

/-- The invariant rule for steps without a condition. -/
theorem run_inv_of_step (hstep : ∀ s i, I s → I (step s i)) (h0 : I s) (l : List ι) :
    I (run step s l) := by
  induction l generalizing s with
  | nil => exact h0
  | cons i l ih => exact ih (hstep s i h0)

/-- A condition on the inputs that all of them meet. -/
theorem Along.of_mem {C : ι → Prop} (h : ∀ i ∈ l, C i) : Along step (fun _ => C) s l := by
  induction l generalizing s with
  | nil => trivial
  | cons i l ih =>
    rw [List.forall_mem_cons] at h
    exact ⟨h.1, ih h.2⟩

theorem run_take_succ {i : ι} (h : l[n]? = some i) :
    run step s (l.take (n + 1)) = step (run step s (l.take n)) i := by
  rw [List.take_add_one, h, run_append]
  rfl

/-- One more input is one more step, or the run is over. -/
theorem run_take_succ_cases (step : σ → ι → σ) (s : σ) (l : List ι) (n : ℕ) :
    run step s (l.take (n + 1)) = run step s (l.take n) ∨
      ∃ i, l[n]? = some i ∧ run step s (l.take (n + 1)) = step (run step s (l.take n)) i := by
  rcases hn : l[n]? with - | i
  · left
    rw [List.take_add_one, hn, Option.toList_none, List.append_nil]
  · exact .inr ⟨i, rfl, run_take_succ hn⟩

/-- The invariant rule from a moment on: `I` holds at the moment `k` and the
steps before the moment `n` keep it. -/
theorem run_take_inv {k : ℕ} (hkn : k ≤ n) (h0 : I (run step s (l.take k)))
    (hstep : ∀ m i, k ≤ m → m < n → l[m]? = some i → I (run step s (l.take m)) →
      I (step (run step s (l.take m)) i)) : I (run step s (l.take n)) := by
  induction n, hkn using Nat.le_induction with
  | base => exact h0
  | succ n hkn ih =>
    have hn := ih fun m i hk hm => hstep m i hk (Nat.lt_succ_of_lt hm)
    rcases run_take_succ_cases step s l n with hover | ⟨i, hi, hnext⟩
    · rw [hover]
      exact hn
    · rw [hnext]
      exact hstep n i hkn (Nat.lt_succ_self n) hi hn

/-- A run is along `C` exactly if each of its steps meets `C` in the state it
is taken in. -/
theorem along_iff_getElem :
    Along step C s l ↔ ∀ n i, l[n]? = some i → C (run step s (l.take n)) i := by
  induction l generalizing s with
  | nil => simp [Along]
  | cons i l ih =>
    rw [Along, ih]
    constructor
    · rintro ⟨hhead, htail⟩ n j hj
      cases n with
      | zero =>
        cases hj
        exact hhead
      | succ n => exact htail n j hj
    · exact fun h => ⟨h 0 i rfl, fun n j hj => h (n + 1) j hj⟩

/-! ### Values that stay -/

/-- Between any two states of a run, the value of `f` is the same if it exists
in every state in between. -/
def Steady (step : σ → ι → σ) (f : σ → Option α) (s : σ) (l : List ι) : Prop :=
  ∀ i j a b, i ≤ j → (∀ k, i ≤ k → k ≤ j → (f (run step s (l.take k))).isSome) →
    f (run step s (l.take i)) = some a → f (run step s (l.take j)) = some b → a = b

/-- A value is steady exactly if no single step changes it. -/
theorem steady_iff_along {f : σ → Option α} :
    Steady step f s l ↔
      Along step (fun s i => ∀ a b, f s = some a → f (step s i) = some b → a = b) s l := by
  rw [along_iff_getElem]
  constructor
  · intro h n i hi a b ha hb
    have hnext : f (run step s (l.take (n + 1))) = some b := (run_take_succ hi).symm ▸ hb
    refine h n (n + 1) a b (Nat.le_succ n) (fun k hk hk' => ?_) ha hnext
    rcases Nat.le_succ_iff.1 hk' with hk' | rfl
    · rw [Nat.le_antisymm hk' hk, ha]
      rfl
    · rw [hnext]
      rfl
  · intro h i j a b hij
    -- on the end of the stretch: one more step, or the run is over
    induction j, hij using Nat.le_induction generalizing b with
    | base =>
      intro _ ha hb
      exact Option.some.inj (ha.symm.trans hb)
    | succ j hij ih =>
      intro hsome ha hb
      obtain ⟨c, hc⟩ := Option.isSome_iff_exists.1 (hsome j hij (Nat.le_succ j))
      have hac : a = c := ih c (fun k hk hk' => hsome k hk (Nat.le_succ_of_le hk')) ha hc
      rcases run_take_succ_cases step s l j with hover | ⟨i, hj, hnext⟩
      · rw [hover, hc] at hb
        exact hac.trans (Option.some.inj hb)
      · rw [hnext] at hb
        exact hac.trans (h j i hj c b hc hb)

end Hoorific
