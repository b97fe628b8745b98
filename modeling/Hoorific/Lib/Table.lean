/-
Keyed tables.  A `Table κ ν` is Mathlib's `AList` with a constant value
family: a finite map from primary keys to rows, whose entries carry the
uniqueness of the key.  `lookup`, `insert` (an upsert) and `erase` come
from Mathlib; this file adds what a relational store needs on top of them:

* `rows`        -- the multiset of rows, the table seen without its order;
* `select`      -- the entries that satisfy a condition;
* `deleteWhere` -- `DELETE ... WHERE`, with what it leaves behind;
* `mapValues`   -- the table that shows a part of each row.

The lemmas about `rows` are the ones aggregate invariants rest on: an
insert under a fresh key adds one row, an insert under a used key
exchanges one row for another (`rows_insert_of_lookup`).
-/
import Mathlib.Data.List.AList
import Mathlib.Algebra.BigOperators.Group.Multiset.Basic

namespace Hoorific

open List

/-- A table with primary key `κ` and row type `ν`. -/
abbrev Table (κ ν : Type*) := AList (fun _ : κ => ν)

namespace Table

variable {κ ν : Type*} [DecidableEq κ] {t : Table κ ν} {k k' : κ} {v w : ν} {μ : Type*}

/-! ### Entries -/

theorem mem_entries_iff : (⟨k, v⟩ : (_ : κ) × ν) ∈ t.entries ↔ t.lookup k = some v :=
  (AList.mem_lookup_iff).symm

theorem forall_entries_iff {P : κ → ν → Prop} :
    (∀ e ∈ t.entries, P e.1 e.2) ↔ ∀ k v, t.lookup k = some v → P k v := by
  constructor
  · intro h k v hv
    exact h ⟨k, v⟩ (mem_entries_iff.2 hv)
  · rintro h ⟨k, v⟩ he
    exact h k v (mem_entries_iff.1 he)

theorem mem_of_lookup (h : t.lookup k = some v) : k ∈ t := AList.lookup_isSome.1 (by rw [h]; rfl)

theorem notMem_of_lookup (h : t.lookup k = none) : k ∉ t := AList.lookup_eq_none.1 h

theorem eq_of_lookup_singleton (h : (AList.singleton k v : Table κ ν).lookup k' = some w) :
    k' = k ∧ w = v := by
  have hmem := mem_entries_iff.2 h
  rw [AList.singleton_entries, mem_singleton] at hmem
  injection hmem with hk hv
  exact ⟨hk, hv⟩

theorem lookup_insert_iff :
    (t.insert k v).lookup k' = some w ↔
      k' = k ∧ w = v ∨ k' ≠ k ∧ t.lookup k' = some w := by
  by_cases hk : k' = k
  · subst hk
    simp [eq_comm]
  · simp [hk]

theorem lookup_erase_iff : (t.erase k).lookup k' = some v ↔ k' ≠ k ∧ t.lookup k' = some v := by
  by_cases hk : k' = k
  · subst hk
    simp
  · simp [hk, AList.lookup_erase_ne]

/-- What holds of the entries and of the new one holds of every entry. -/
theorem forall_insert {P : κ → ν → Prop} (h : ∀ k v, t.lookup k = some v → P k v) (hv : P k v) :
    ∀ k' w, (t.insert k v).lookup k' = some w → P k' w := by
  intro k' w hw
  rcases lookup_insert_iff.1 hw with ⟨rfl, rfl⟩ | ⟨-, hold⟩
  · exact hv
  · exact h k' w hold

/-! ### Rows as a multiset -/

/-- The rows of a table, without their keys and without an order. -/
def rows (t : Table κ ν) : Multiset ν := (t.entries.map Sigma.snd : List ν)

omit [DecidableEq κ] in
@[simp] theorem rows_empty : rows (∅ : Table κ ν) = 0 := rfl

theorem mem_rows_iff : v ∈ rows t ↔ ∃ k, t.lookup k = some v := by
  simp only [rows, Multiset.mem_coe, mem_map]
  constructor
  · rintro ⟨⟨k, w⟩, hmem, rfl⟩
    exact ⟨k, mem_entries_iff.1 hmem⟩
  · rintro ⟨k, hk⟩
    exact ⟨⟨k, v⟩, mem_entries_iff.2 hk, rfl⟩

theorem rows_insert_of_lookup_none (h : t.lookup k = none) (v : ν) :
    rows (t.insert k v) = v ::ₘ rows t := by
  rw [rows, AList.entries_insert_of_notMem (notMem_of_lookup h)]
  rfl

/-- Entries of a table, with one of them taken to the front. -/
theorem entries_perm_of_lookup (h : t.lookup k = some v) :
    t.entries.Perm (⟨k, v⟩ :: (t.erase k).entries) := by
  obtain ⟨w, l₁, l₂, -, hl, hk⟩ := exists_of_kerase (mem_of_lookup h)
  have hw : t.lookup k = some w := mem_entries_iff.1 (by rw [hl]; simp)
  cases h.symm.trans hw
  calc t.entries = l₁ ++ ⟨k, v⟩ :: l₂ := hl
    _ |>.Perm (⟨k, v⟩ :: (l₁ ++ l₂)) := perm_middle
    _ |>.Perm (⟨k, v⟩ :: (t.erase k).entries) := List.Perm.of_eq (congrArg (List.cons _) hk.symm)

theorem rows_of_lookup (h : t.lookup k = some v) : rows t = v ::ₘ rows (t.erase k) := by
  have hp := (entries_perm_of_lookup h).map Sigma.snd
  simpa [rows] using hp

/-- An insert under a used key exchanges the old row for the new one. -/
theorem rows_insert_of_lookup (h : t.lookup k = some v) (w : ν) :
    rows t = v ::ₘ rows (t.erase k) ∧ rows (t.insert k w) = w ::ₘ rows (t.erase k) :=
  ⟨rows_of_lookup h, by rw [rows, AList.entries_insert]; rfl⟩

/-! ### Selecting and deleting -/

/-- The entries that satisfy `p`, as key-row pairs. -/
def select (p : κ → ν → Bool) (t : Table κ ν) : List (κ × ν) :=
  (t.entries.filter fun e => p e.1 e.2).map fun e => (e.1, e.2)

theorem mem_select_iff {p : κ → ν → Bool} :
    (k, v) ∈ select p t ↔ t.lookup k = some v ∧ p k v = true := by
  simp only [select, mem_map, mem_filter]
  constructor
  · rintro ⟨⟨k', v'⟩, ⟨hmem, hp⟩, he⟩
    cases he
    exact ⟨mem_entries_iff.1 hmem, hp⟩
  · rintro ⟨hl, hp⟩
    exact ⟨⟨k, v⟩, ⟨mem_entries_iff.2 hl, hp⟩, rfl⟩

omit [DecidableEq κ] in
theorem nodup_keys_select (p : κ → ν → Bool) (t : Table κ ν) :
    ((select p t).map Prod.fst).Nodup := by
  have hsub : ((t.entries.filter fun e => p e.1 e.2).map Sigma.fst).Sublist t.keys :=
    filter_sublist.map Sigma.fst
  simpa [select, Function.comp_def] using t.keys_nodup.sublist hsub

theorem select_insert_of_lookup_none (h : t.lookup k = none) (p : κ → ν → Bool) (v : ν) :
    select p (t.insert k v) = if p k v then (k, v) :: select p t else select p t := by
  rw [select, AList.entries_insert_of_notMem (notMem_of_lookup h), filter_cons]
  split <;> rfl

/-- `DELETE FROM t WHERE p`. -/
def deleteWhere (p : κ → ν → Bool) (t : Table κ ν) : Table κ ν where
  entries := t.entries.filter fun e => !p e.1 e.2
  nodupKeys := t.nodupKeys.sublist filter_sublist

theorem lookup_deleteWhere_iff {p : κ → ν → Bool} :
    (deleteWhere p t).lookup k = some v ↔ t.lookup k = some v ∧ p k v = false := by
  rw [← mem_entries_iff, ← mem_entries_iff, deleteWhere]
  simp

omit [DecidableEq κ] in
/-- What a delete removes and what it keeps make up the whole table. -/
theorem rows_deleteWhere (p : κ → ν → Bool) (t : Table κ ν) :
    rows t = rows (deleteWhere p t) + ((select p t).map Prod.snd : List ν) := by
  have hp := (filter_append_perm (fun e : (_ : κ) × ν => !p e.1 e.2) t.entries).symm
  have hm := Multiset.coe_eq_coe.2 (hp.map Sigma.snd)
  simpa [rows, deleteWhere, select, Function.comp_def] using hm

/-- A table whose entries are all entries of `t`: the entries of `t` it lacks
make up the difference. -/
theorem rows_of_subtable {t' : Table κ ν}
    (hsub : ∀ k v, t'.lookup k = some v → t.lookup k = some v) :
    rows t = rows t' + ((select (fun k _ => decide (k ∉ t')) t).map Prod.snd : List ν) := by
  have hrest := rows_deleteWhere (fun k _ => decide (k ∉ t')) t
  -- what `t` keeps has the same entries as `t'`
  have hperm : (deleteWhere (fun k _ => decide (k ∉ t')) t).entries.Perm t'.entries := by
    refine (perm_ext_iff_of_nodup (AList.nodupKeys _).nodup t'.nodupKeys.nodup).2 ?_
    rintro ⟨k, v⟩
    rw [mem_entries_iff, mem_entries_iff, lookup_deleteWhere_iff]
    constructor
    · rintro ⟨hv, hk⟩
      have hmem : k ∈ t' := by simpa using hk
      obtain ⟨w, hw⟩ := Option.isSome_iff_exists.1 (AList.lookup_isSome.2 hmem)
      rw [hw, ← hsub k w hw, hv]
    · intro hv
      exact ⟨hsub k v hv, by simpa using mem_of_lookup hv⟩
  have hrows : rows (deleteWhere (fun k _ => decide (k ∉ t')) t) = rows t' :=
    Multiset.coe_eq_coe.2 (hperm.map Sigma.snd)
  rw [hrest, hrows]

/-! ### Filling a table -/

/-- Insert a list of rows, one after the other. -/
def insertAll (t : Table κ ν) (l : List (κ × ν)) : Table κ ν :=
  l.foldl (fun t e => t.insert e.1 e.2) t

/-- If no key is inserted twice, the table has the rows of the list, and the
old rows under the other keys. -/
theorem lookup_insertAll_iff {l : List (κ × ν)} (hl : (l.map Prod.fst).Nodup) :
    (insertAll t l).lookup k = some v ↔
      (k, v) ∈ l ∨ k ∉ l.map Prod.fst ∧ t.lookup k = some v := by
  induction l generalizing t with
  | nil => simp [insertAll]
  | cons e l ih =>
    obtain ⟨k₀, v₀⟩ := e
    rw [map_cons, nodup_cons] at hl
    have hfold : insertAll t ((k₀, v₀) :: l) = insertAll (t.insert k₀ v₀) l := rfl
    rw [hfold, ih hl.2, lookup_insert_iff]
    simp only [mem_cons, map_cons, Prod.mk.injEq, not_or]
    constructor
    · rintro (hmem | ⟨hk, ⟨rfl, rfl⟩ | ⟨hne, hold⟩⟩)
      · exact .inl (.inr hmem)
      · exact .inl (.inl ⟨rfl, rfl⟩)
      · exact .inr ⟨⟨hne, hk⟩, hold⟩
    · rintro ((⟨rfl, rfl⟩ | hmem) | ⟨⟨hne, hk⟩, hold⟩)
      · exact .inr ⟨hl.1, .inl ⟨rfl, rfl⟩⟩
      · exact .inl hmem
      · exact .inr ⟨hk, .inr ⟨hne, hold⟩⟩

/-- The table made of the rows of a list, their values mapped by `f`. -/
theorem lookup_insertAll_map {l : List (κ × μ)} (hl : (l.map Prod.fst).Nodup) (f : κ × μ → ν) :
    (insertAll ∅ (l.map fun e => (e.1, f e)) : Table κ ν).lookup k = some v ↔
      ∃ x, (k, x) ∈ l ∧ v = f (k, x) := by
  rw [lookup_insertAll_iff (by rw [map_map]; exact hl)]
  simp only [mem_map, Prod.mk.injEq, AList.lookup_empty, reduceCtorEq, and_false, or_false]
  constructor
  · rintro ⟨⟨k', x⟩, hmem, rfl, rfl⟩
    exact ⟨x, hmem, rfl⟩
  · rintro ⟨x, hmem, rfl⟩
    exact ⟨(k, x), hmem, rfl, rfl⟩

/-! ### `INSERT ... ON CONFLICT DO NOTHING` -/

/-- A row that is inserted unless its key is taken. -/
def insertAbsent (t : Table κ ν) (k : κ) (v : ν) : Table κ ν :=
  if (t.lookup k).isSome then t else t.insert k v

theorem lookup_insertAbsent_of_some (h : t.lookup k = some v) :
    (insertAbsent t k' w).lookup k = some v := by
  unfold insertAbsent
  split
  · exact h
  next hfree =>
  have hk : k ≠ k' := by
    rintro rfl
    exact hfree (by rw [h]; rfl)
  rw [AList.lookup_insert_ne hk, h]

theorem lookup_insertAbsent_cases (h : (insertAbsent t k' w).lookup k = some v) :
    t.lookup k = some v ∨ v = w := by
  unfold insertAbsent at h
  split at h
  · exact .inl h
  · rcases lookup_insert_iff.1 h with ⟨-, rfl⟩ | ⟨-, hold⟩
    · exact .inr rfl
    · exact .inl hold

/-! ### Empty tables -/

omit [DecidableEq κ] in
/-- The table has no entry. -/
def isEmpty (t : Table κ ν) : Bool := t.entries.isEmpty

/-! ### The values of a table -/

omit [DecidableEq κ] in
/-- The table with every value mapped. -/
def mapValues {μ : Type*} (f : ν → μ) (t : Table κ ν) : Table κ μ where
  entries := t.entries.map fun e => ⟨e.1, f e.2⟩
  nodupKeys := by
    have hkeys : (t.entries.map fun e => (⟨e.1, f e.2⟩ : (_ : κ) × μ)).keys = t.entries.keys := by
      rw [List.keys, List.keys, map_map]
      rfl
    rw [List.NodupKeys, hkeys]
    exact t.nodupKeys

@[simp] theorem lookup_mapValues (f : ν → μ) (t : Table κ ν) (k : κ) :
    (mapValues f t).lookup k = (t.lookup k).map f := by
  ext w
  rw [Option.map_eq_some_iff, ← mem_entries_iff, mapValues, mem_map]
  constructor
  · rintro ⟨⟨k', v⟩, hmem, heq⟩
    cases heq
    exact ⟨v, mem_entries_iff.1 hmem, rfl⟩
  · rintro ⟨v, hv, rfl⟩
    exact ⟨⟨k, v⟩, mem_entries_iff.2 hv, rfl⟩

/-! ### Tables whose row type depends on the key -/

section Dependent

variable {β : κ → Type*}

omit [DecidableEq κ] in
/-- The entries whose key satisfies `p`. -/
def filterKeys (p : κ → Bool) (t : AList β) : AList β where
  entries := t.entries.filter fun e => p e.1
  nodupKeys := t.nodupKeys.sublist filter_sublist

variable {p : κ → Bool}

theorem lookup_filterKeys_iff {t : AList β} {v : β k} :
    (filterKeys p t).lookup k = some v ↔ t.lookup k = some v ∧ p k = true := by
  have hiff : ∀ t : AList β, t.lookup k = some v ↔ (⟨k, v⟩ : Sigma β) ∈ t.entries :=
    fun t => AList.mem_lookup_iff
  rw [hiff, hiff, filterKeys, mem_filter]

theorem lookup_filterKeys_of_pos {t : AList β} (h : p k = true) :
    (filterKeys p t).lookup k = t.lookup k := by
  ext v
  rw [lookup_filterKeys_iff]
  exact and_iff_left h

theorem lookup_filterKeys_of_neg {t : AList β} (h : p k = false) :
    (filterKeys p t).lookup k = none := by
  ext v
  rw [lookup_filterKeys_iff, h]
  simp

/-- A table with the keys in `p` from one table and the others from another. -/
theorem lookup_filterKeys_union {t t' : AList β} (h : p k = true) :
    (filterKeys p t ∪ filterKeys (fun k => !p k) t').lookup k = t.lookup k := by
  have hright : (filterKeys (fun k => !p k) t').lookup k = none :=
    lookup_filterKeys_of_neg (by simp [h])
  by_cases hmem : k ∈ filterKeys p t
  · rw [AList.lookup_union_left hmem, lookup_filterKeys_of_pos h]
  · rw [AList.lookup_union_right hmem, hright, ← lookup_filterKeys_of_pos h,
      AList.lookup_eq_none.2 hmem]

end Dependent

end Table

end Hoorific
