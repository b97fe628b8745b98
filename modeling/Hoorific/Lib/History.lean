/-
Histories of a deterministic system whose steps answer: a step function
`σ → ι → α × σ`, run over a list of inputs, with an event for every step
that records the state before it, the input, the answer and the state after.

Two rules carry what is said about histories.  `history_induct` is the
induction: a relation between what has happened and the state that was
reached, kept by one more step, holds of every history.  `exists_drop` finds
an event: what holds after one event and no longer before a later one was
lost at an event in between.
-/
import Mathlib.Data.List.Chain

namespace Hoorific

variable {σ ι α : Type*}

/-- One step of a run. -/
structure Event (σ ι α : Type*) where
  before : σ
  input : ι
  answer : α
  after : σ

/-- The event of a step. -/
def event (step : σ → ι → α × σ) (s : σ) (i : ι) : Event σ ι α := ⟨s, i, (step s i).1, (step s i).2⟩

/-- The events of the run of `l` from `s`. -/
def history (step : σ → ι → α × σ) : σ → List ι → List (Event σ ι α)
  | _, [] => []
  | s, i :: l => event step s i :: history step (step s i).2 l

/-- The state the run of `l` from `s` ends in. -/
def final (step : σ → ι → α × σ) (s : σ) (l : List ι) : σ := l.foldl (fun s i => (step s i).2) s

variable {step : σ → ι → α × σ} {s : σ} {l : List ι}

theorem history_append (l' : List ι) :
    history step s (l ++ l') = history step s l ++ history step (final step s l) l' := by
  induction l generalizing s with
  | nil => rfl
  | cons i l ih =>
    show event step s i :: history step (step s i).2 (l ++ l') = _
    rw [ih]
    rfl

theorem final_append (l' : List ι) : final step s (l ++ l') = final step (final step s l) l' :=
  List.foldl_append

theorem history_inputs : (history step s l).map Event.input = l := by
  induction l generalizing s with
  | nil => rfl
  | cons i l ih =>
    show i :: (history step (step s i).2 l).map Event.input = _
    rw [ih]

variable {e : Event σ ι α}

theorem eq_event_of_mem (he : e ∈ history step s l) : e = event step e.before e.input := by
  induction l generalizing s with
  | nil => cases he
  | cons i l ih =>
    rcases List.mem_cons.1 he with rfl | he
    · rfl
    · exact ih he

theorem step_of_event {i : ι} (he : e = event step e.before e.input)
    (hin : e.input = i) : step e.before i = (e.answer, e.after) := by
  subst hin
  rw [he]
  rfl

theorem event_mem {i : ι} {l' : List ι} :
    event step (final step s l) i ∈ history step s (l ++ i :: l') := by
  rw [history_append]
  exact List.mem_append_right _ List.mem_cons_self

/-- **Induction over histories**: on the last step. -/
theorem history_induct {P : List (Event σ ι α) → σ → Prop} (h0 : P [] s) (l : List ι)
    (hstep : ∀ l₁ i l₂, l = l₁ ++ i :: l₂ → P (history step s l₁) (final step s l₁) →
      P (history step s l₁ ++ [event step (final step s l₁) i]) (step (final step s l₁) i).2) :
    P (history step s l) (final step s l) := by
  induction l using List.reverseRecOn with
  | nil => exact h0
  | append_singleton l i ih =>
    rw [history_append, final_append]
    refine hstep l i [] rfl (ih fun l₁ j l₂ heq hP => ?_)
    exact hstep l₁ j (l₂ ++ [i]) (by rw [heq, List.append_assoc, List.cons_append]) hP

/-- An event of a history starts where the events before it end. -/
theorem history_split {h₁ h₂ : List (Event σ ι α)} (h : history step s l = h₁ ++ e :: h₂) :
    ∃ l₁ l₂, l = l₁ ++ e.input :: l₂ ∧ h₁ = history step s l₁ ∧ e.before = final step s l₁ ∧
      h₂ = history step e.after l₂ := by
  induction h₁ generalizing s l with
  | nil =>
    rcases l with - | ⟨i, l⟩
    · cases h
    injection h with he hrest
    subst he
    exact ⟨[], l, rfl, rfl, rfl, hrest.symm⟩
  | cons x h₁ ih =>
    rcases l with - | ⟨i, l⟩
    · cases h
    injection h with hx hrest
    subst hx
    obtain ⟨l₁, l₂, rfl, rfl, hbefore, hafter⟩ := ih hrest
    exact ⟨i :: l₁, l₂, rfl, rfl, hbefore, hafter⟩

/-- What holds at the start of a run and not at its end is lost at one of its events. -/
theorem exists_drop {Q : σ → Prop} (hs : Q s) (hend : ¬ Q (final step s l)) :
    ∃ e ∈ history step s l, Q e.before ∧ ¬ Q e.after := by
  induction l generalizing s with
  | nil => exact absurd hs hend
  | cons i l ih =>
    by_cases hnext : Q (step s i).2
    · obtain ⟨e, he, hdrop⟩ := ih hnext hend
      exact ⟨e, List.mem_cons_of_mem _ he, hdrop⟩
    · exact ⟨event step s i, List.mem_cons_self, hs, hnext⟩

/-- Both events of a split history belong to it. -/
theorem mem_of_split {α : Type*} {h h₁ h₂ h₃ : List α} {e₁ e₂ : α}
    (hsplit : h = h₁ ++ e₁ :: (h₂ ++ e₂ :: h₃)) : e₁ ∈ h ∧ e₂ ∈ h := by
  subst hsplit
  exact ⟨by simp, by simp⟩

/-- **What every event keeps, holds from one event to a later one.** -/
theorem holds_between {Q : σ → Prop} {h₁ h₂ h₃ : List (Event σ ι α)} {e₁ e₂ : Event σ ι α}
    (h : history step s l = h₁ ++ e₁ :: (h₂ ++ e₂ :: h₃))
    (hstep : ∀ e ∈ history step s l, Q e.before → Q e.after) (hQ : Q e₁.after) : Q e₂.before := by
  obtain ⟨_, l₂, -, -, -, hrest⟩ := history_split h
  obtain ⟨m₁, _, -, rfl, hbefore, -⟩ := history_split hrest.symm
  by_contra hlost
  rw [hbefore] at hlost
  obtain ⟨e, he, hold, hnew⟩ := exists_drop hQ hlost
  refine hnew (hstep e ?_ hold)
  rw [h]
  exact List.mem_append_right _ (List.mem_cons_of_mem _ (List.mem_append_left _ he))

end Hoorific
