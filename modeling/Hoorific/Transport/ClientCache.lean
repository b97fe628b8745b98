/-
The clients of the native helper.  `client_for` keeps a client and a
semaphore for each key; a request takes a handle, waits for a permit of the
semaphore and holds it while it is under way.  A full cache drops the entry
that was not used for the longest time, but only one that nobody refers to:
handles and permits each keep a reference to their semaphore.  So the
semaphore of a key stays in the cache as long as somebody uses it, and an
entry that is made again finds nobody at the old one.

The client is built outside of the lock, so a call that misses comes back
(`install`) to a cache that others have changed.  A request that waits for
its permit has its handle, which stands for it here.
-/
import Mathlib.Data.List.MinMax
import Hoorific.Lib.Run
import Hoorific.Lib.Table

namespace Hoorific.Transport

open List

structure ClientKey where
  poolKey : String
  origin : String
  addresses : List String := []
  maxConnections : ℕ
deriving DecidableEq

/-- An entry; semaphores are known by numbers. -/
structure ClientEntry where
  active : ℕ
  limit : ℕ
  lastUsed : ℕ
deriving DecidableEq

/-- `MAX_CLIENTS`. -/
def maxClients : ℕ := 256

/-- A reference to the semaphore of a key. -/
abbrev Reference := ClientKey × ℕ

/-- `ClientCacheState`, and what has been taken from the cache. -/
structure ClientCache where
  entries : Table ClientKey ClientEntry := ∅
  clock : ℕ := 0
  /-- the number of the next semaphore -/
  next : ℕ := 0
  /-- the calls of `client_for` that are building a client -/
  building : List ClientKey := []
  handles : List Reference := []
  permits : List Reference := []

namespace ClientCache

variable (s : ClientCache) (k : ClientKey)

def tick : ClientCache := { s with clock := (s.clock + 1) % 2 ^ 64 }

/-- A handle for an entry. -/
def handOut (e : ClientEntry) : ClientCache :=
  { s with
    entries := s.entries.insert k { e with lastUsed := s.clock }
    handles := (k, e.active) :: s.handles }

/-- `Arc::strong_count`, of a semaphore in the cache. -/
def strongCount (active : ℕ) : ℕ := 1 + (s.handles ++ s.permits).countP (·.2 == active)

/-- `available_permits`, of a semaphore that was made with `limit`. -/
def availablePermits (active limit : ℕ) : ℕ := limit - s.permits.countP (·.2 == active)

/-- The entry that is dropped. -/
def victim : Option (ClientKey × ClientEntry) :=
  (Table.select (fun _ e => s.strongCount e.active == 1 &&
    s.availablePermits e.active e.limit == e.limit) s.entries).argmin (·.2.lastUsed)

/-- The first half of `client_for`. -/
def lookup : ClientCache :=
  match s.entries.lookup k with
  | some e => s.tick.handOut k e
  | none => { s.tick with building := k :: s.building }

/-- The new entry; the reference that `client_for` has itself becomes the handle. -/
def inserted : ClientCache :=
  { s with
    entries := s.entries.insert k ⟨s.next, k.maxConnections, s.clock⟩
    next := s.next + 1
    handles := (k, s.next) :: s.handles }

/-- The second half of `client_for`, with the client that was built. -/
def install : ClientCache :=
  match s.entries.lookup k with
  | some e => s.tick.handOut k e
  | none =>
    let t := s.tick.inserted k
    if t.entries.keys.length ≤ maxClients then t
    else match t.victim with
      | some v => { t with entries := t.entries.erase v.1 }
      | none => { t with entries := t.entries.erase k, handles := s.handles }

end ClientCache

/-- What can happen to the cache. -/
inductive ClientOp where
  | lookup (k : ClientKey)
  /-- a call that was building comes back: the client may have failed -/
  | install (k : ClientKey) (built : Bool)
  | acquire (h : Reference)
  | release (p : Reference)
  | dropHandle (h : Reference)

def ClientOp.step (s : ClientCache) : ClientOp → ClientCache
  | .lookup k => s.lookup k
  | .install k built =>
    if k ∈ s.building then
      let s := { s with building := s.building.erase k }
      if built then s.install k else s
    else s
  | .acquire h =>
    if h ∈ s.handles ∧ s.availablePermits h.2 h.1.maxConnections ≠ 0 then
      { s with permits := h :: s.permits }
    else s
  | .release p => { s with permits := s.permits.erase p }
  | .dropHandle h => { s with handles := s.handles.erase h }

/-- The reference is to the semaphore that the cache has for its key. -/
def ClientCache.Keeps (s : ClientCache) (x : Reference) : Prop :=
  ∃ e, s.entries.lookup x.1 = some e ∧ e.active = x.2

/-- The cache has room and keeps what is referred to, and no key has more
permits than connections. -/
structure ClientCache.Sound (s : ClientCache) : Prop where
  size : s.entries.keys.length ≤ maxClients
  keeps : ∀ x ∈ s.handles ++ s.permits, s.Keeps x
  bound : ∀ k : ClientKey, s.permits.countP (·.1 == k) ≤ k.maxConnections

namespace ClientCache.Sound

variable {s : ClientCache} {k : ClientKey}

theorem handOut {e : ClientEntry} (h : s.Sound) (he : s.entries.lookup k = some e) :
    (s.handOut k e).Sound := by
  have hkeeps : ∀ x, s.Keeps x → (s.handOut k e).Keeps x := by
    rintro x ⟨e', he', hactive⟩
    by_cases hx : x.1 = k
    · subst hx
      cases he.symm.trans he'
      exact ⟨_, AList.lookup_insert _, hactive⟩
    · exact ⟨e', (AList.lookup_insert_ne hx).trans he', hactive⟩
  refine ⟨?_, forall_mem_cons.2 ⟨hkeeps _ ⟨e, he, rfl⟩, fun x hx => hkeeps x (h.keeps x hx)⟩, h.bound⟩
  have hmem : k ∈ s.entries.keys := AList.mem_keys.1 (Table.mem_of_lookup he)
  have hpos := length_pos_of_mem hmem
  have hsize := h.size
  simp only [ClientCache.handOut, AList.keys_insert, length_cons, length_erase_of_mem hmem]
  omega

/-- Nobody refers to the entry that is dropped. -/
theorem victim_free {v : ClientKey × ClientEntry} (hv : v ∈ s.victim) :
    v.1 ∈ s.entries.keys ∧ ∀ x ∈ s.handles ++ s.permits, s.Keeps x → x.1 ≠ v.1 := by
  obtain ⟨hrow, hfree⟩ := Table.mem_select_iff.1 (argmin_mem hv)
  have hnone : (s.handles ++ s.permits).countP (·.2 == v.2.active) = 0 := by
    simp only [Bool.and_eq_true, beq_iff_eq, strongCount] at hfree
    omega
  refine ⟨AList.mem_keys.1 (Table.mem_of_lookup hrow), ?_⟩
  rintro x hx ⟨e, he, hactive⟩ hkey
  rw [hkey, hrow] at he
  cases he
  exact countP_eq_zero.1 hnone x hx (beq_iff_eq.2 hactive.symm)

/-- A cache with one entry too many drops one that nobody refers to. -/
theorem dropped {handles : List Reference} (hsize : s.entries.keys.length ≤ maxClients + 1)
    (hbound : ∀ k : ClientKey, s.permits.countP (·.1 == k) ≤ k.maxConnections) (hk : k ∈ s.entries.keys)
    (hkeeps : ∀ x ∈ handles ++ s.permits, s.Keeps x ∧ x.1 ≠ k) :
    Sound { s with entries := s.entries.erase k, handles := handles } := by
  refine ⟨?_, fun x hx => ?_, hbound⟩
  · show (s.entries.erase k).keys.length ≤ maxClients
    rw [AList.keys_erase, length_erase_of_mem hk]
    omega
  · obtain ⟨⟨e, he, hactive⟩, hne⟩ := hkeeps x hx
    exact ⟨e, (AList.lookup_erase_ne hne).trans he, hactive⟩

theorem install (h : s.Sound) (k : ClientKey) : (s.install k).Sound := by
  unfold ClientCache.install
  split
  next e he => exact handOut (s := s.tick) ⟨h.size, h.keeps, h.bound⟩ he
  next hnone =>
    have hold : ∀ x ∈ s.handles ++ s.permits, x.1 ≠ k := by
      rintro x hx rfl
      obtain ⟨e, he, -⟩ := h.keeps x hx
      cases hnone.symm.trans he
    have hkeeps : ∀ x ∈ (s.tick.inserted k).handles ++ s.permits, (s.tick.inserted k).Keeps x := by
      refine forall_mem_cons.2 ⟨⟨_, AList.lookup_insert _, rfl⟩, fun x hx => ?_⟩
      obtain ⟨e, he, hactive⟩ := h.keeps x hx
      exact ⟨e, (AList.lookup_insert_ne (hold x hx)).trans he, hactive⟩
    have hkeys : (s.tick.inserted k).entries.keys = k :: s.entries.keys.erase k := AList.keys_insert ..
    have hsize : (s.tick.inserted k).entries.keys.length ≤ maxClients + 1 := by
      rw [hkeys]
      exact Nat.succ_le_succ (length_erase_le.trans h.size)
    dsimp only
    split
    next hroom => exact ⟨hroom, hkeeps, h.bound⟩
    next =>
      split
      next v hv =>
        obtain ⟨hmem, hfree⟩ := victim_free hv
        exact dropped hsize h.bound hmem fun x hx => ⟨hkeeps x hx, hfree x hx (hkeeps x hx)⟩
      next =>
        have hmem : k ∈ (s.tick.inserted k).entries.keys := hkeys ▸ mem_cons_self
        exact dropped hsize h.bound hmem fun x hx =>
          ⟨hkeeps x (mem_cons_of_mem _ hx), hold x hx⟩

theorem one (h : s.Sound) {x y : Reference} (hx : x ∈ s.handles ++ s.permits)
    (hy : y ∈ s.handles ++ s.permits) (hkey : x.1 = y.1) : x.2 = y.2 := by
  obtain ⟨e, he, hactive⟩ := h.keeps x hx
  obtain ⟨e', he', hactive'⟩ := h.keeps y hy
  rw [hkey, he'] at he
  cases he
  exact hactive.symm.trans hactive'

/-- **Step**: every operation keeps the cache sound. -/
theorem step (h : s.Sound) (op : ClientOp) : (op.step s).Sound := by
  cases op with
  | lookup k =>
    show (s.lookup k).Sound
    unfold ClientCache.lookup
    split
    next e he => exact handOut (s := s.tick) ⟨h.size, h.keeps, h.bound⟩ he
    next => exact ⟨h.size, h.keeps, h.bound⟩
  | install k built =>
    simp only [ClientOp.step]
    split_ifs
    · exact install (s := { s with building := s.building.erase k }) ⟨h.size, h.keeps, h.bound⟩ k
    · exact ⟨h.size, h.keeps, h.bound⟩
    · exact h
  | acquire x =>
    simp only [ClientOp.step]
    split_ifs with hx
    · obtain ⟨hmem, hfree⟩ := hx
      have hmem : x ∈ s.handles ++ s.permits := mem_append_left _ hmem
      refine ⟨h.size, fun y hy => ?_, fun k => ?_⟩
      · rcases mem_append.1 hy with hy | hy
        · exact h.keeps y (mem_append_left _ hy)
        · exact forall_mem_cons.2 ⟨h.keeps x hmem, fun y hy => h.keeps y (mem_append_right _ hy)⟩ y hy
      · rw [countP_cons]
        split_ifs with hk
        · -- the permits of the key are permits of this semaphore, which has one left
          obtain rfl := beq_iff_eq.1 hk
          have hle : s.permits.countP (·.1 == x.1) ≤ s.permits.countP (·.2 == x.2) := by
            refine countP_mono_left fun y hy hkey => beq_iff_eq.2 ?_
            exact h.one (mem_append_right _ hy) hmem (beq_iff_eq.1 hkey)
          unfold availablePermits at hfree
          omega
        · exact h.bound k
    · exact h
  | release x =>
    refine ⟨h.size, fun y hy => h.keeps y ?_, fun k => erase_sublist.countP_le.trans (h.bound k)⟩
    exact (Sublist.append_left erase_sublist s.handles).subset hy
  | dropHandle x =>
    exact ⟨h.size, fun y hy => h.keeps y ((erase_sublist.append_right s.permits).subset hy), h.bound⟩

end ClientCache.Sound

/-- **The cache keeps the limit of connections**: in every run it has at most
`MAX_CLIENTS` entries, the handles and permits of a key are of one
semaphore, and a key has no more permits than connections. -/
theorem client_limit_kept (ops : List ClientOp) :
    let s := run ClientOp.step {} ops
    s.entries.keys.length ≤ maxClients ∧
      (∀ x ∈ s.handles ++ s.permits, ∀ y ∈ s.handles ++ s.permits, x.1 = y.1 → x.2 = y.2) ∧
      ∀ k, s.permits.countP (·.1 == k) ≤ k.maxConnections := by
  have h : (run ClientOp.step {} ops).Sound :=
    run_inv_of_step (fun _ op h => h.step op) ⟨Nat.zero_le _, nofun, fun _ => Nat.zero_le _⟩ ops
  exact ⟨h.size, fun x hx y hy => h.one hx hy, h.bound⟩

end Hoorific.Transport
