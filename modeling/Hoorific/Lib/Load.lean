/-
Loading a table.  A loader goes through the entries of a table, checks each
and copies it into a table of its own state; the check may look at the
state.  `yields_load` is the rule for such loops: if for an entry whose key
is not loaded yet the check is a condition on the entry alone, then the
loop succeeds exactly if every row meets the condition, and the copy then
has exactly the rows of the source.
-/
import Hoorific.Lib.Check
import Hoorific.Lib.Table

namespace Hoorific

namespace Table

variable {κ ν : Type} [DecidableEq κ]

/-- The rows of a list of entries have been loaded, and nothing else. -/
def Loads (done : List ((_ : κ) × ν)) (t : Table κ ν) : Prop :=
  ∀ k v, t.lookup k = some v ↔ ⟨k, v⟩ ∈ done

theorem loads_nil : Loads [] (∅ : Table κ ν) := by
  intro k v
  simp

variable {done rest : List ((_ : κ) × ν)} {t src : Table κ ν} {k : κ} {v : ν}

/-- A row whose key has not been loaded is not there yet. -/
theorem Loads.fresh (h : Loads done t) (hsrc : src.entries = done ++ ⟨k, v⟩ :: rest) :
    t.lookup k = none := by
  by_contra hne
  obtain ⟨w, hw⟩ := Option.ne_none_iff_exists'.1 hne
  have hkeys : (done ++ ⟨k, v⟩ :: rest).NodupKeys := hsrc ▸ src.nodupKeys
  rw [List.NodupKeys, List.keys, List.map_append, List.nodup_append] at hkeys
  exact hkeys.2.2 k (List.mem_map.2 ⟨_, (h k w).1 hw, rfl⟩) k List.mem_cons_self rfl

theorem Loads.insert (h : Loads done t) (hsrc : src.entries = done ++ ⟨k, v⟩ :: rest) :
    Loads (done ++ [⟨k, v⟩]) (t.insert k v) := by
  intro k' v'
  have hfresh := h.fresh hsrc
  rw [lookup_insert_iff, List.mem_append, List.mem_singleton, ← h k' v']
  constructor
  · rintro (⟨rfl, rfl⟩ | ⟨-, hold⟩)
    · exact .inr rfl
    · exact .inl hold
  · rintro (hold | hnew)
    · refine .inr ⟨?_, hold⟩
      rintro rfl
      rw [hfresh] at hold
      cases hold
    · cases hnew
      exact .inl ⟨rfl, rfl⟩

/-- **Loading**: `field` is the table that is filled, `F` what else every
iteration keeps, `P` what the check amounts to. -/
theorem yields_load {σ ε : Type} {f : σ → ((_ : κ) × ν) → Except ε σ} {s₀ : σ}
    (field : σ → Table κ ν) (F : σ → Prop) (P : κ → ν → Prop) (hfield : field s₀ = ∅) (hF : F s₀)
    (hstep : ∀ s k v, F s → (field s).lookup k = none →
      Check.Yields (f s ⟨k, v⟩) (P k v) fun s' => field s' = (field s).insert k v ∧ F s') :
    Check.Yields (src.entries.foldlM f s₀) (∀ k v, src.lookup k = some v → P k v) fun s' =>
      (∀ k, (field s').lookup k = src.lookup k) ∧ F s' := by
  rw [← forall_entries_iff]
  refine (Check.yields_foldlM (fun e : (_ : κ) × ν => P e.1 e.2)
    (fun done s => Loads done (field s) ∧ F s) ⟨hfield ▸ loads_nil, hF⟩ ?_).mono ?_
  · rintro done ⟨k, v⟩ rest s hsrc ⟨hload, hFs⟩
    refine (hstep s k v hFs (hload.fresh hsrc)).mono ?_
    rintro s' ⟨hins, hFs'⟩
    exact ⟨hins ▸ hload.insert hsrc, hFs'⟩
  · rintro s' ⟨hload, hFs'⟩
    refine ⟨fun k => ?_, hFs'⟩
    ext v
    rw [hload k v, mem_entries_iff]

/-- Loading by a loop that checks an entry and changes nothing but the table:
`put` is the state with another table. -/
theorem yields_copies {σ ε : Type} {f : σ → ((_ : κ) × ν) → Except ε σ} {s₀ : σ}
    (field : σ → Table κ ν) (put : σ → Table κ ν → σ) (P : κ → ν → Prop) (hfield : field s₀ = ∅)
    (hput : put s₀ (field s₀) = s₀) (hget : ∀ t, field (put s₀ t) = t)
    (hstep : ∀ t k v s', t.lookup k = none →
      (f (put s₀ t) ⟨k, v⟩ = .ok s' ↔ P k v ∧ s' = put s₀ (t.insert k v))) :
    Check.Yields (src.entries.foldlM f s₀) (∀ k v, src.lookup k = some v → P k v) fun s' =>
      ∃ t, (∀ k, t.lookup k = src.lookup k) ∧ s' = put s₀ t := by
  refine (yields_load field (fun s => s = put s₀ (field s)) P hfield hput.symm ?_).mono
    fun s' ⟨hlookup, hs'⟩ => ⟨field s', hlookup, hs'⟩
  intro s k v hs hnone
  have hok := fun s' => hstep (field s) k v s' hnone
  rw [← hs] at hok
  unfold Check.Yields
  simp only [hok]
  refine ⟨⟨fun ⟨_, hP, _⟩ => hP, fun hP => ⟨_, hP, rfl⟩⟩, ?_⟩
  rintro s' ⟨-, rfl⟩
  rw [hget]
  exact ⟨rfl, rfl⟩

end Table

end Hoorific
