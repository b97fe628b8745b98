/-
Fallible computations without a state: checks in `Except ε`.  A check is a
`do` block over `Check.require` and loops; the lemmas here say when it
succeeds, each as an equivalence, so that a list of checks reads as a
conjunction and a loop of checks as a bounded quantifier.
-/
import Mathlib.Data.List.Forall2

namespace Hoorific

namespace Check

variable {ε α β : Type}

/-- Fail with `e` unless `c`. -/
def require (c : Bool) (e : ε) : Except ε Unit :=
  if c then .ok () else .error e

@[simp] theorem require_ok {c : Bool} {e : ε} {u : Unit} : require c e = .ok u ↔ c = true := by
  unfold require
  split <;> simp [*]

@[simp] theorem bind_ok {m : Except ε α} {f : α → Except ε β} {b : β} :
    (m >>= f) = .ok b ↔ ∃ a, m = .ok a ∧ f a = .ok b := by
  rcases m with e | a <;> simp [bind, Except.bind]

variable {f : α → Except ε β} {m : Except ε α}

theorem bind_error {e : ε} :
    (m >>= f) = .error e ↔ m = .error e ∨ ∃ a, m = .ok a ∧ f a = .error e := by
  rcases m with e' | a <;> simp [bind, Except.bind]

@[simp] theorem pure_ok {a b : α} : (pure a : Except ε α) = .ok b ↔ a = b := by
  show Except.ok a = .ok b ↔ a = b
  simp

/-- A value that has to be there, and what is done with it. -/
theorem elim_ok {o : Option α} {e : ε} {b : β} :
    o.elim (.error e) f = .ok b ↔ ∃ a, o = some a ∧ f a = .ok b := by
  rcases o with - | a <;> simp

variable {l : List α}

/-- A loop of checks succeeds if every check does. -/
theorem forM_ok {f : α → Except ε Unit} {u : Unit} : forM l f = .ok u ↔ ∀ a ∈ l, f a = .ok () := by
  induction l with
  | nil => simp
  | cons a l ih =>
    rw [List.forM_cons, bind_ok, List.forall_mem_cons, ← ih]
    constructor
    · rintro ⟨⟨⟩, ha, hl⟩
      exact ⟨ha, hl⟩
    · rintro ⟨ha, hl⟩
      exact ⟨(), ha, hl⟩

/-- A loop that collects results succeeds if every iteration does, with the
results in order. -/
theorem mapM_ok {out : List β} :
    l.mapM f = .ok out ↔ List.Forall₂ (fun a b => f a = .ok b) l out := by
  induction l generalizing out with
  | nil =>
    rw [List.mapM_nil, pure_ok, List.forall₂_nil_left_iff]
    exact eq_comm
  | cons a l ih =>
    simp only [List.mapM_cons, bind_ok, pure_ok, List.forall₂_cons_left_iff, ih]
    constructor
    · rintro ⟨b, hb, bs, hbs, rfl⟩
      exact ⟨b, bs, hb, hbs, rfl⟩
    · rintro ⟨b, bs, hb, hbs, rfl⟩
      exact ⟨b, hb, bs, hbs, rfl⟩

/-- A loop whose iterations, where they succeed, have the results `g`. -/
theorem eq_map_of_mapM_ok {g : α → β} {out : List β}
    (hg : ∀ a b, f a = .ok b → b = g a) (h : l.mapM f = .ok out) : out = l.map g := by
  rw [mapM_ok] at h
  induction h with
  | nil => rfl
  | cons hab _ ih => rw [List.map_cons, ← ih, hg _ _ hab]

theorem mapM_eq_map {g : α → β} (h : ∀ a ∈ l, f a = .ok (g a)) : l.mapM f = .ok (l.map g) := by
  rw [mapM_ok, List.forall₂_map_right_iff, List.forall₂_same]
  exact h

/-- What every iteration keeps, a successful loop keeps. -/
theorem foldlM_ok_inv {f : β → α → Except ε β} (I : β → Prop) {b r : β}
    (h : l.foldlM f b = .ok r) (hb : I b)
    (hstep : ∀ a ∈ l, ∀ c c', I c → f c a = .ok c' → I c') : I r := by
  induction l generalizing b with
  | nil =>
    cases h
    exact hb
  | cons a l ih =>
    rw [List.foldlM_cons, bind_ok] at h
    obtain ⟨c, hc, hrest⟩ := h
    exact ih hrest (hstep a List.mem_cons_self b c hb hc)
      fun x hx => hstep x (List.mem_cons_of_mem a hx)

/-! ### When a computation succeeds, and with what -/

/-- `m` succeeds exactly if `P`, and then with a result that has `I`. -/
def Yields (m : Except ε α) (P : Prop) (I : α → Prop) : Prop :=
  ((∃ a, m = .ok a) ↔ P) ∧ ∀ a, m = .ok a → I a

theorem yields_require {c : Bool} {e : ε} : Yields (require c e) (c = true) fun _ => True :=
  ⟨⟨fun ⟨_, h⟩ => require_ok.1 h, fun h => ⟨(), require_ok.2 h⟩⟩, fun _ _ => trivial⟩

theorem Yields.mono {P : Prop} {I J : α → Prop} (h : Yields m P I)
    (hIJ : ∀ a, I a → J a) : Yields m P J :=
  ⟨h.1, fun a ha => hIJ a (h.2 a ha)⟩

/-- Two computations in sequence: what the first yields is what the second
starts from. -/
theorem Yields.bind {P Q : Prop} {I : α → Prop}
    {J : β → Prop} (hm : Yields m P I) (hf : ∀ a, I a → Yields (f a) Q J) :
    Yields (m >>= f) (P ∧ Q) J := by
  unfold Yields
  simp only [bind_ok]
  refine ⟨⟨?_, ?_⟩, ?_⟩
  · rintro ⟨b, a, ha, hb⟩
    exact ⟨hm.1.1 ⟨a, ha⟩, (hf a (hm.2 a ha)).1.1 ⟨b, hb⟩⟩
  · rintro ⟨hP, hQ⟩
    obtain ⟨a, ha⟩ := hm.1.2 hP
    obtain ⟨b, hb⟩ := (hf a (hm.2 a ha)).1.2 hQ
    exact ⟨b, a, ha, hb⟩
  · rintro b ⟨a, ha, hb⟩
    exact (hf a (hm.2 a ha)).2 b hb

/-- **Loops**: if in every iteration, under an invariant on the elements done
and the state, the body succeeds exactly for the elements with `P` and keeps
the invariant, then the loop succeeds exactly if all elements have `P`, and
it ends with the invariant. -/
theorem yields_foldlM {f : β → α → Except ε β} {b : β} (P : α → Prop)
    (I : List α → β → Prop) (hb : I [] b)
    (hstep : ∀ done a rest c, l = done ++ a :: rest → I done c →
      Yields (f c a) (P a) (I (done ++ [a]))) :
    Yields (l.foldlM f b) (∀ a ∈ l, P a) (I l) := by
  -- the induction is on what is left of the list
  suffices haux : ∀ rest done c, l = done ++ rest → I done c →
      Yields (rest.foldlM f c) (∀ a ∈ rest, P a) (I l) from haux l [] b rfl hb
  intro rest
  induction rest with
  | nil =>
    intro done c hl hc
    simp only [List.append_nil] at hl
    subst hl
    refine ⟨⟨fun _ a ha => absurd ha List.not_mem_nil, fun _ => ⟨c, rfl⟩⟩, ?_⟩
    intro r hr
    cases hr
    exact hc
  | cons a rest ih =>
    intro done c hl hc
    have hl' : l = (done ++ [a]) ++ rest := by simp [hl]
    rw [List.forall_mem_cons]
    exact (hstep done a rest c hl hc).bind fun c' hc' => ih (done ++ [a]) c' hl' hc'

end Check

/-- Related lists: every element of the first has a partner in the second. -/
theorem forall₂_exists {α β : Type*} {R : α → β → Prop} {l : List α} {l' : List β}
    (h : List.Forall₂ R l l') {a : α} (ha : a ∈ l) : ∃ b, b ∈ l' ∧ R a b := by
  induction h with
  | nil => cases ha
  | cons hab _ ih =>
    rcases List.mem_cons.1 ha with rfl | ha
    · exact ⟨_, List.mem_cons_self, hab⟩
    · obtain ⟨b, hb, hR⟩ := ih ha
      exact ⟨b, List.mem_cons_of_mem _ hb, hR⟩

/-- A result of a loop is that of one of its iterations. -/
theorem Check.exists_of_mem_mapM {ε α β : Type} {l : List α} {f : α → Except ε β} {out : List β}
    (h : l.mapM f = .ok out) {b : β} (hb : b ∈ out) : ∃ a ∈ l, f a = .ok b :=
  forall₂_exists (Check.mapM_ok.1 h).flip hb

end Hoorific
