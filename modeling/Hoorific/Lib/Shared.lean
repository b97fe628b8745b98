/-
One unit shared by a group.  The members of a group are live or not, and
each holds some amount.  The group is lawful if the members that are not
live hold nothing and the live ones, if there are any, hold one unit
together: whoever joins first takes the unit, and the others ride on it.

The rules say how a group may change: the first member brings the unit,
another may join a live group empty-handed, and a member may stop being
live if it holds nothing or no other member is live.
-/
import Mathlib.Algebra.BigOperators.Group.Multiset.Basic
import Mathlib.Algebra.Order.Ring.Int

namespace Hoorific

/-- A member of a group: whether it is live, and what it holds. -/
structure Member where
  live : Bool
  holds : ℤ
deriving DecidableEq

/-- The group shares one unit. -/
structure SharesUnit (g : Multiset Member) : Prop where
  idle : ∀ m ∈ g, m.live = false → m.holds = 0
  one : (∃ m ∈ g, m.live = true) → (g.map Member.holds).sum = 1

namespace SharesUnit

variable {g : Multiset Member}

theorem empty : SharesUnit 0 where
  idle := fun m hm => absurd hm (Multiset.notMem_zero m)
  one := by
    rintro ⟨m, hm, -⟩
    exact absurd hm (Multiset.notMem_zero m)

/-- A group without live members holds nothing. -/
theorem sum_eq_zero (h : SharesUnit g) (hnone : ∀ m ∈ g, m.live = false) :
    (g.map Member.holds).sum = 0 := by
  refine Multiset.sum_eq_zero fun x hx => ?_
  obtain ⟨m, hm, rfl⟩ := Multiset.mem_map.1 hx
  exact h.idle m hm (hnone m hm)

/-- The first member brings the unit. -/
theorem first : SharesUnit {⟨true, 1⟩} where
  idle := by
    intro m hm hdead
    rw [Multiset.mem_singleton.1 hm] at hdead
    cases hdead
  one := fun _ => by simp

/-- Another member may join a live group empty-handed. -/
theorem join (h : SharesUnit g) (hlive : ∃ m ∈ g, m.live = true) :
    SharesUnit (⟨true, 0⟩ ::ₘ g) where
  idle := by
    intro m hm hdead
    rcases Multiset.mem_cons.1 hm with rfl | hm
    · rfl
    · exact h.idle m hm hdead
  one := fun _ => by
    rw [Multiset.map_cons, Multiset.sum_cons, h.one hlive, zero_add]

/-- A live member may leave if it holds nothing or is the last one. -/
theorem leave {u : ℤ} (h : SharesUnit (⟨true, u⟩ ::ₘ g))
    (hu : u = 0 ∨ ∀ m ∈ g, m.live = false) : SharesUnit (⟨false, 0⟩ ::ₘ g) where
  idle := by
    intro m hm hdead
    rcases Multiset.mem_cons.1 hm with rfl | hm
    · rfl
    · exact h.idle m (Multiset.mem_cons_of_mem hm) hdead
  one := by
    rintro ⟨m, hm, hlive⟩
    have hg : m ∈ g := by
      rcases Multiset.mem_cons.1 hm with rfl | hm
      · cases hlive
      · exact hm
    rcases hu with rfl | hnone
    · have hone := h.one ⟨m, Multiset.mem_cons_of_mem hg, hlive⟩
      simpa using hone
    · rw [hnone m hg] at hlive
      cases hlive

end SharesUnit

end Hoorific
