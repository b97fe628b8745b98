/-
Machines that are given one item at a time, and emit a list or fail.  The
run of such a machine over a list (`emitAll`) models the inner loops of a
decoder as well as a writer that is handed a whole stream.  What each step
keeps, a run keeps: of the machine with the items it emits
(`emitAll_foldl_inv`), and of a source with the items it returned
(`Decodes.inv`).
-/
import Hoorific.Lib.Check
import Hoorific.Lib.Pull

namespace Hoorific

variable {σ ε α β φ : Type}

/-- The run of a machine over a list, with everything it emits. -/
def emitAll (step : σ → α → Except ε (σ × List β)) : σ → List α → Except ε (σ × List β)
  | s, [] => .ok (s, [])
  | s, a :: l => do
    let (s', out) ← step s a
    let (s'', rest) ← emitAll step s' l
    pure (s'', out ++ rest)

variable {step : σ → α → Except ε (σ × List β)}

theorem emitAll_cons_ok {s s'' : σ} {a : α} {l : List α} {out : List β} :
    emitAll step s (a :: l) = .ok (s'', out) ↔
      ∃ s' first rest, step s a = .ok (s', first) ∧ emitAll step s' l = .ok (s'', rest) ∧
        out = first ++ rest := by
  rw [emitAll, Check.bind_ok]
  constructor
  · rintro ⟨⟨s', first⟩, hstep, h⟩
    obtain ⟨⟨t, rest⟩, hrest, heq⟩ := Check.bind_ok.1 h
    cases heq
    exact ⟨s', first, rest, hstep, hrest, rfl⟩
  · rintro ⟨s', first, rest, hstep, hrest, rfl⟩
    exact ⟨(s', first), hstep, Check.bind_ok.2 ⟨(s'', rest), hrest, rfl⟩⟩

/-- What every step keeps, a run keeps; the emitted items are folded into a
second state. -/
theorem emitAll_foldl_inv {γ : Type} (I : σ → γ → Prop) (g : γ → β → γ) {s s' : σ} {c : γ}
    {l : List α} {out : List β}
    (hstep : ∀ a ∈ l, ∀ s s' c out, I s c → step s a = .ok (s', out) → I s' (out.foldl g c))
    (hs : I s c) (h : emitAll step s l = .ok (s', out)) : I s' (out.foldl g c) := by
  induction l generalizing s c out with
  | nil =>
    cases h
    exact hs
  | cons a l ih =>
    obtain ⟨s₁, first, rest, ha, hl, rfl⟩ := emitAll_cons_ok.1 h
    rw [List.foldl_append]
    exact ih (fun b hb => hstep b (List.mem_cons_of_mem a hb))
      (hstep a List.mem_cons_self s s₁ c first hs ha) hl

/-! ### Sources whose items are folded -/

namespace Feeder

/-- The source is at its end. -/
def Ended (m : Feeder σ ε φ α) (s : σ) : Prop := m.stopped s = true ∨ ∃ s', m.close s = .ok (s', [])

/-- What every frame keeps of the state and the items so far holds at the end. -/
theorem Decodes.inv {m : Feeder σ ε φ α} (I : σ → List α → Prop)
    (hfeed : ∀ s f s' out l, I s l → m.feed s f = .ok (s', out) → I s' (l ++ out))
    (hclose : ∀ s s' out l, I s l → m.close s = .ok (s', out) → I s' (l ++ out))
    {s : σ} {input : List φ} {l' : List α} (h : m.Decodes s input l') :
    ∀ l, I s l → ∃ s', I s' (l ++ l') ∧ m.Ended s' := by
  induction h with
  | @stop s _ hs =>
    intro l hI
    exact ⟨s, by rwa [List.append_nil], .inl hs⟩
  | @close s s' _ hc =>
    intro l hI
    exact ⟨s, by rwa [List.append_nil], .inr ⟨s', hc⟩⟩
  | closing _ _ hc _ ih =>
    intro l hI
    rw [← List.append_assoc]
    exact ih _ (hclose _ _ _ l hI hc)
  | feed _ hf _ ih =>
    intro l hI
    rw [← List.append_assoc]
    exact ih _ (hfeed _ _ _ _ l hI hf)

end Feeder

end Hoorific
