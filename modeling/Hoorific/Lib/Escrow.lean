/-
Escrow accounting, the abstract picture behind a quota store.  A pool has
a balance in some commutative group and a multiset of holds in the same
group; the pool is *balanced* when the balance is the sum of the holds.

Two moves change a pool: a new hold is opened and its amount is added to
the balance, or a hold is revised and the balance moves by the
difference.  `Pool.Step` is the reflexive closure of these moves under
sequencing, so that an implementation may perform any number of them (or
none) in one transaction.  `Pool.Step.balanced` is the one conservation
argument: an implementation shows which moves it performs and gets the
balance law from here.

For quota counters the group is `key → ℤ`: one hold is the vector of what
one owner holds under every key.
-/
import Mathlib.Algebra.BigOperators.Group.Multiset.Basic
import Mathlib.Tactic.Abel

namespace Hoorific

/-- A balance and the holds it is made of. -/
structure Pool (A : Type*) where
  balance : A
  holds : Multiset A

namespace Pool

variable {A : Type*} [AddCommGroup A]

/-- The balance is the sum of the holds. -/
def Balanced (p : Pool A) : Prop := p.balance = p.holds.sum

/-- What one transaction of an implementation may do to a pool. -/
inductive Step : Pool A → Pool A → Prop
  | refl (p : Pool A) : Step p p
  | open (b h : A) (hs : Multiset A) : Step ⟨b, hs⟩ ⟨b + h, h ::ₘ hs⟩
  | revise (b h h' : A) (hs : Multiset A) : Step ⟨b, h ::ₘ hs⟩ ⟨b + (h' - h), h' ::ₘ hs⟩
  | trans {p q r : Pool A} : Step p q → Step q r → Step p r

theorem balanced_empty : Balanced (⟨0, 0⟩ : Pool A) := by
  simp [Balanced]

/-- **Conservation**: every step keeps a pool balanced. -/
theorem Step.balanced {p q : Pool A} (h : Step p q) (hp : p.Balanced) : q.Balanced := by
  induction h with
  | refl p => exact hp
  | «open» b h hs =>
    simp only [Balanced] at hp
    simp only [Balanced, Multiset.sum_cons, hp]
    abel
  | revise b h h' hs =>
    simp only [Balanced, Multiset.sum_cons] at hp
    simp only [Balanced, Multiset.sum_cons, hp]
    abel
  | trans _ _ ih₁ ih₂ => exact ih₂ (ih₁ hp)

end Pool

end Hoorific
