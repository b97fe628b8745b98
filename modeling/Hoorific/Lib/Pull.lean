/-
Reading a source by repeated calls.  A call returns the next item, the end
of the input, or an error; `Pulls next s l` says that calls from the state
`s` return exactly the items `l` and then the end of the input.

Most sources are queues over a list of frames (`Feeder`): a call returns
the head of the queue, and reads frames while the queue is empty.  Such a
source returns, frame by frame, everything that its frames yield
(`pulls_iff_decodes`), so a proof about it goes by induction on the frames
and never sees the queue.
-/
import Mathlib.Tactic.Common

namespace Hoorific

variable {σ ε α φ : Type*}

/-- What a call returns, with the state after it. -/
inductive Pulled (σ ε α : Type*) where
  | item (a : α) (s : σ)
  | eof
  | failed (e : ε)

/-- Calls from the state return the items, and then the end of the input. -/
inductive Pulls (next : σ → Pulled σ ε α) : σ → List α → Prop
  | eof {s : σ} (h : next s = .eof) : Pulls next s []
  | item {s s' : σ} {a : α} {l : List α} (h : next s = .item a s') (rest : Pulls next s' l) :
    Pulls next s (a :: l)

/-- Calls from the state return the items, and then the end of the input or an
error. -/
inductive Emits (next : σ → Pulled σ ε α) : σ → List α → Prop
  | stop {s : σ} (h : ∀ a s', next s ≠ .item a s') : Emits next s []
  | item {s s' : σ} {a : α} {l : List α} (h : next s = .item a s') (rest : Emits next s' l) :
    Emits next s (a :: l)

variable {s s' : σ} {l : List α}

/-- What a source returns is decided by its next call. -/
theorem Pulls.of_next_eq {next : σ → Pulled σ ε α} (heq : next s = next s') (h : Pulls next s' l) :
    Pulls next s l := by
  cases h with
  | eof h => exact .eof (heq.trans h)
  | item h rest => exact .item (heq.trans h) rest

/-! ### Sources with a queue -/

/-- A source over frames `φ`: what a frame yields, whether the source is over,
and what the end of the frames yields. -/
structure Feeder (σ ε φ α : Type*) where
  feed : σ → φ → Except ε (σ × List α)
  stopped : σ → Bool
  close : σ → Except ε (σ × List α)

namespace Feeder

variable (m : Feeder σ ε φ α)

/-- The state of a source, its queue, and the frames it has not read. -/
structure Queue (σ φ α : Type*) where
  state : σ
  pending : List α := []
  input : List φ

/-- The answer of a call whose queue is empty. -/
def refill : σ → List φ → Pulled (Queue σ φ α) ε α
  | s, [] =>
    if m.stopped s then .eof
    else match m.close s with
      | .error e => .failed e
      | .ok (_, []) => .eof
      | .ok (s', a :: pending) => .item a ⟨s', pending, []⟩
  | s, f :: input =>
    if m.stopped s then .eof
    else match m.feed s f with
      | .error e => .failed e
      | .ok (s', []) => refill s' input
      | .ok (s', a :: pending) => .item a ⟨s', pending, input⟩

/-- A call: the head of the queue, or what the next frames yield. -/
def next (q : Queue σ φ α) : Pulled (Queue σ φ α) ε α :=
  match q.pending with
  | a :: pending => .item a { q with pending := pending }
  | [] => m.refill q.state q.input

/-- Frame by frame, the frames from the state yield the items. -/
inductive Decodes : σ → List φ → List α → Prop
  | stop {s : σ} {input : List φ} (h : m.stopped s = true) : Decodes s input []
  | close {s s' : σ} (h : m.stopped s = false) (hclose : m.close s = .ok (s', [])) : Decodes s [] []
  | closing {s s' : σ} {out l : List α} (h : m.stopped s = false) (hout : out ≠ [])
      (hclose : m.close s = .ok (s', out)) (rest : Decodes s' [] l) : Decodes s [] (out ++ l)
  | feed {s s' : σ} {f : φ} {input : List φ} {out l : List α} (h : m.stopped s = false)
      (hfeed : m.feed s f = .ok (s', out)) (rest : Decodes s' input l) :
    Decodes s (f :: input) (out ++ l)

variable {m}

theorem refill_of_stopped (h : m.stopped s = true) (input : List φ) : m.refill s input = .eof := by
  cases input with
  | nil | cons f input => rw [refill, if_pos h]

theorem refill_nil (h : m.stopped s = false) :
    m.refill s [] = match m.close s with
      | .error e => .failed e
      | .ok (_, []) => .eof
      | .ok (s', a :: pending) => .item a ⟨s', pending, []⟩ := by
  rw [refill, if_neg (Bool.eq_false_iff.1 h)]

theorem refill_cons (h : m.stopped s = false) (f : φ) (input : List φ) :
    m.refill s (f :: input) = match m.feed s f with
      | .error e => .failed e
      | .ok (s', []) => m.refill s' input
      | .ok (s', a :: pending) => .item a ⟨s', pending, input⟩ := by
  rw [refill, if_neg (Bool.eq_false_iff.1 h)]

variable {input : List φ} {pending : List α}

theorem decodes_of_refill_eof (h : m.refill s input = .eof) : m.Decodes s input [] := by
  induction input generalizing s with
  | nil =>
    rcases hs : m.stopped s with - | -
    · rw [refill_nil hs] at h
      rcases hclose : m.close s with e | ⟨s', - | ⟨a, pending⟩⟩
      · rw [hclose] at h
        cases h
      · exact .close hs hclose
      · rw [hclose] at h
        cases h
    · exact .stop hs
  | cons f input ih =>
    rcases hs : m.stopped s with - | -
    · rw [refill_cons hs] at h
      rcases hfeed : m.feed s f with e | ⟨s', - | ⟨a, pending⟩⟩ <;> rw [hfeed] at h
      · cases h
      · exact .feed hs hfeed (ih h)
      · cases h
    · exact .stop hs

theorem decodes_of_refill_item {input' : List φ} {a : α}
    (h : m.refill s input = .item a ⟨s', pending, input'⟩) (rest : m.Decodes s' input' l) :
    m.Decodes s input (a :: pending ++ l) := by
  induction input generalizing s with
  | nil =>
    rcases hs : m.stopped s with - | -
    · rw [refill_nil hs] at h
      rcases hclose : m.close s with e | ⟨s₁, - | ⟨b, p⟩⟩ <;> rw [hclose] at h
      · cases h
      · cases h
      · cases h
        exact .closing hs (List.cons_ne_nil a pending) hclose rest
    · rw [refill_of_stopped hs] at h
      cases h
  | cons f input ih =>
    rcases hs : m.stopped s with - | -
    · rw [refill_cons hs] at h
      rcases hfeed : m.feed s f with e | ⟨s₁, - | ⟨b, p⟩⟩ <;> rw [hfeed] at h
      · cases h
      · have hdec : m.Decodes s (f :: input) ([] ++ (a :: pending ++ l)) := .feed hs hfeed (ih h)
        exact hdec
      · cases h
        exact .feed hs hfeed rest
    · rw [refill_of_stopped hs] at h
      cases h

theorem pulls_pending (h : Pulls m.next ⟨s, [], input⟩ l) (pending : List α) :
    Pulls m.next ⟨s, pending, input⟩ (pending ++ l) := by
  induction pending with
  | nil => exact h
  | cons a pending ih => exact .item rfl ih

theorem pulls_of_decodes (h : m.Decodes s input l) : Pulls m.next ⟨s, [], input⟩ l := by
  induction h with
  | stop hs => exact .eof (refill_of_stopped hs _)
  | close hs hclose =>
    refine .eof ?_
    show m.refill _ [] = _
    rw [refill_nil hs, hclose]
  | @closing s s' out l hs hout hclose _ ih =>
    obtain ⟨a, pending, rfl⟩ := List.exists_cons_of_ne_nil hout
    refine .item ?_ (pulls_pending ih pending)
    show m.refill _ [] = _
    rw [refill_nil hs, hclose]
  | @feed s s' f input out l hs hfeed _ ih =>
    have hnext : m.refill s (f :: input) = _ := refill_cons hs f input
    rw [hfeed] at hnext
    rcases out with - | ⟨a, pending⟩
    · -- a frame that yields nothing: the call goes on as if it had begun after it
      have hsame : m.next ⟨s, [], f :: input⟩ = m.next ⟨s', [], input⟩ := hnext
      exact ih.of_next_eq hsame
    · exact .item hnext (pulls_pending ih pending)

/-- **A queue returns what its frames yield**, after what is in it already. -/
theorem pulls_iff_decodes :
    Pulls m.next ⟨s, pending, input⟩ l ↔ ∃ l', l = pending ++ l' ∧ m.Decodes s input l' := by
  constructor
  · intro h
    generalize hq : (⟨s, pending, input⟩ : Queue σ φ α) = q at h
    induction h generalizing s pending input with
    | eof h =>
      subst hq
      rcases pending with - | ⟨a, pending⟩
      · exact ⟨[], rfl, decodes_of_refill_eof h⟩
      · cases h
    | @item _ q' b l h _ ih =>
      subst hq
      rcases pending with - | ⟨a, pending⟩
      · obtain ⟨l', rfl, hdec⟩ := ih rfl
        exact ⟨_, rfl, decodes_of_refill_item h hdec⟩
      cases h
      obtain ⟨l', rfl, hdec⟩ := ih rfl
      exact ⟨l', rfl, hdec⟩
  · rintro ⟨l', rfl, hdec⟩
    exact pulls_pending (pulls_of_decodes hdec) pending

/-- A source that is over returns nothing. -/
theorem Decodes.stopped (h : m.Decodes s input l) (hs : m.stopped s = true) : l = [] := by
  cases h with
  | stop => rfl
  | close h | closing h | feed h => simp [h] at hs

/-- A frame that is accepted yields what it yields, and the rest what it yields
from the state after it. -/
theorem decodes_cons_iff {f : φ} {out : List α} (hs : m.stopped s = false)
    (hfeed : m.feed s f = .ok (s', out)) :
    m.Decodes s (f :: input) (out ++ l) ↔ m.Decodes s' input l := by
  refine ⟨fun h => ?_, .feed hs hfeed⟩
  generalize hl : out ++ l = l' at h
  cases h with
  | stop h => simp [h] at hs
  | @feed _ s₁ _ _ out₁ l₁ _ hfeed₁ hrest =>
    obtain ⟨rfl, rfl⟩ := Prod.mk.inj (Except.ok.inj (hfeed.symm.trans hfeed₁))
    obtain rfl := List.append_cancel_left hl
    exact hrest

/-! ### Reading a source to its end -/

/-- What the end of the frames yields, if the source is over then. -/
def readEnd (m : Feeder σ ε φ α) (s : σ) : Option (List α) :=
  if m.stopped s then some []
  else match m.close s with
    | .ok (_, []) => some []
    | _ => none

/-- Everything a source returns, if it does not fail and its end yields nothing. -/
def readAll (m : Feeder σ ε φ α) : σ → List φ → Option (List α)
  | s, [] => m.readEnd s
  | s, f :: input =>
    if m.stopped s then some []
    else match m.feed s f with
      | .ok (s', out) => (readAll m s' input).map (out ++ ·)
      | .error _ => none

theorem decodes_of_readAll (h : m.readAll s input = some l) : m.Decodes s input l := by
  induction input generalizing s l with
  | nil =>
    rw [readAll, readEnd] at h
    split at h
    case isTrue hs =>
      cases h
      exact .stop hs
    case isFalse hs =>
      split at h
      case h_1 s' hclose =>
        cases h
        exact .close (Bool.eq_false_iff.2 hs) hclose
      case h_2 => cases h
  | cons f input ih =>
    rw [readAll] at h
    split at h
    case isTrue hs =>
      cases h
      exact .stop hs
    case isFalse hs =>
      split at h
      case h_1 s' out hfeed =>
        obtain ⟨rest, hrest, rfl⟩ := Option.map_eq_some_iff.1 h
        exact .feed (Bool.eq_false_iff.2 hs) hfeed (ih hrest)
      case h_2 => cases h

theorem pulls_of_readAll (h : m.readAll s input = some l) : Pulls m.next ⟨s, [], input⟩ l :=
  pulls_of_decodes (decodes_of_readAll h)

end Feeder

end Hoorific
