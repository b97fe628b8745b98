/-
The front of a sorted list that may have members twice.  A member that the
list has twice is twice in the front as well, unless the members before it
leave room for one of the two only (`nodup_take_iff`).
-/
import Mathlib.Data.List.Nodup

namespace Hoorific

open List

variable {α : Type} [BEq α] [LawfulBEq α] {r : α → α → Prop} [DecidableRel r]

/-- The members that come before `x`. -/
def before (r : α → α → Prop) [DecidableRel r] (x : α) (l : List α) : List α :=
  l.filter fun y => decide (r y x) && y != x

theorem length_before_add_count (r : α → α → Prop) [DecidableRel r] (x : α) (l : List α) :
    (before r x l).length + l.count x = (l.filter fun y => decide (r y x) || y == x).length := by
  induction l with
  | nil => rfl
  | cons y l ih =>
    rw [before] at ih ⊢
    by_cases hyx : y = x
    · subst hyx
      simp
      omega
    by_cases hr : r y x
    · simp [hr, hyx]
      omega
    · simpa [hr, hyx] using ih

/-- The front has no member twice exactly if, of the members that the list has
twice, each has enough before it to fill the front. -/
theorem nodup_take_iff {l : List α} {n : ℕ} (hs : l.Pairwise r)
    (hanti : ∀ a ∈ l, ∀ b ∈ l, r a b → r b a → a = b) :
    (l.take n).Nodup ↔ ∀ x, 2 ≤ l.count x → n ≤ (before r x l).length + 1 := by
  have hsplit : ∀ x ∈ l.take n, ∀ y ∈ l.drop n, r x y := by
    rw [← take_append_drop n l] at hs
    exact (pairwise_append.1 hs).2.2
  have hcount : ∀ x, l.count x = (l.take n).count x + (l.drop n).count x := fun x => by
    rw [← count_append, take_append_drop]
  have hbefore : ∀ x, before r x l = before r x (l.take n) ++ before r x (l.drop n) := fun x => by
    rw [before, before, before, ← filter_append, take_append_drop]
  constructor
  · intro hnodup x hx
    have hone := nodup_iff_count_le_one.1 hnodup x
    have hdrop : x ∈ l.drop n := count_pos_iff.1 (by have := hcount x; omega)
    have hlen := length_before_add_count r x (l.take n)
    rw [filter_eq_self.2 fun y hy => by simp [hsplit y hy x hdrop]] at hlen
    have hn : n ≤ l.length := by
      by_contra hlt
      rw [drop_of_length_le (by omega)] at hdrop
      cases hdrop
    rw [length_take_of_le hn] at hlen
    rw [hbefore x, length_append]
    omega
  · intro h
    refine nodup_iff_count_le_one.2 fun x => ?_
    by_contra htwice
    have hx : x ∈ l.take n := count_pos_iff.1 (by omega)
    have hnone : before r x (l.drop n) = [] := by
      refine filter_eq_nil_iff.2 fun y hy => ?_
      simp only [Bool.and_eq_true, decide_eq_true_eq, bne_iff_ne, not_and, not_not]
      exact fun hyx => hanti y (mem_of_mem_drop hy) x (mem_of_mem_take hx) hyx (hsplit x hx y hy)
    have hroom := h x (by have := hcount x; omega)
    rw [hbefore x, hnone, append_nil] at hroom
    have hlen := length_before_add_count r x (l.take n)
    have := length_filter_le (fun y => decide (r y x) || y == x) (l.take n)
    have := length_take_le n l
    omega

end Hoorific
