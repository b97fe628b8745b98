/-
The process-local cache of compiled snapshots, under every schedule of the
goroutines that use it.  A section under the lock and a read of the store
are one step each; a goroutine is the record of where it stands between
two of its steps, and the list of inputs of a run is the schedule.

A load has two phases: it reads the store without the lock and publishes
under it.  In between, commits may be announced (`onConfigCommit`).  Every
announcement raises the generation of the tenant, and a load publishes only
if the generation is the one it started with.  So a load that publishes
after an announcement began after it, and has read what was committed by
then.  What is true of the catalogs that are read is true of those that are
published and of the answers: this is `Keeps`, the invariant that carries
the result.

The generation is a natural number here and a `uint64` in the source: the
difference would need 2^64 invalidations during one load.
-/
import Hoorific.Store.Compiles

namespace Hoorific

open Table

/-! ### The state -/

/-- `Catalog.Snapshot`: a copy of what was compiled. -/
def Catalog.snapshot (c : Catalog) : RuntimeSnapshot :=
  { revision := c.revision, policy := c.policy, connections := c.connections, models := c.models,
    aliases := c.aliases, routePolicies := c.routePolicies, accountPools := c.accountPools }

structure CachedSnapshot where
  catalog : Catalog
  revision : ℤ

/-- The errors of the runtime state: its own, those of the store and those of
the compilation. -/
inductive RuntimeError where
  | plain (message : String)
  | store (e : StoreError)
  | compile (e : CompileError)

/-- Where a call of `Snapshot` or `RefreshSnapshot` stands.  `left` counts the
rounds of the loop after the present one. -/
inductive CallPhase where
  /-- `RefreshSnapshot` before its invalidation -/
  | refresh
  /-- before the section that reads the cache -/
  | lookup (left : ℕ)
  /-- before the read of the store; the generation was read with the cache -/
  | load (left generation : ℕ)
  /-- before the section that publishes -/
  | publish (left generation : ℕ) (compiled : Catalog)
  | done (answer : Except RuntimeError RuntimeSnapshot)

structure Call where
  principal : Principal
  phase : CallPhase

/-- Where a call of `repair` stands. -/
inductive RepairPhase where
  /-- before the section that lists the cached tenants -/
  | list
  /-- before the read of the revision for the first of these tenants -/
  | next (tenants : List String)
  /-- before the section that reads the entry of the tenant -/
  | compare (tenant : String) (revision : ℤ) (rest : List String)
  /-- before the invalidation -/
  | invalidate (tenant : String) (revision : ℤ) (rest : List String)

/-- The committed store, the cache under its lock, and the goroutines. -/
structure RuntimeState where
  store : Store
  cache : Table String CachedSnapshot := ∅
  generation : Table String ℕ := ∅
  calls : Table ℕ Call := ∅
  repairs : Table ℕ RepairPhase := ∅

namespace RuntimeState

variable (s : RuntimeState)

/-- `generation[tenant]`: 0 for an absent key. -/
def generationOf (tenant : String) : ℕ := (s.generation.lookup tenant).getD 0

def raiseGeneration (tenant : String) : RuntimeState :=
  { s with generation := s.generation.insert tenant (s.generationOf tenant + 1) }

/-! ### The sections under the lock -/

def invalidate (tenant : String) (revision : ℤ) : RuntimeState :=
  if tenant = "" then s
  else
    let s := s.raiseGeneration tenant
    match s.cache.lookup tenant with
    | some current =>
      if revision ≤ 0 ∨ current.revision < revision then
        { s with cache := s.cache.erase tenant }
      else s
    | none => s

/-- `onConfigCommit`; what follows its section is the publication to other
processes. -/
def onConfigCommit (tenant : String) : RuntimeState :=
  if tenant = "" then s
  else
    let s := s.raiseGeneration tenant
    { s with cache := s.cache.erase tenant }

/-- The entry after a publication: a newer one is not replaced. -/
def published (tenant : String) (compiled : Catalog) : CachedSnapshot :=
  match s.cache.lookup tenant with
  | some current =>
    if current.revision ≤ compiled.revision then ⟨compiled, compiled.revision⟩ else current
  | none => ⟨compiled, compiled.revision⟩

/-- The section that publishes. -/
def publish (tenant : String) (compiled : Catalog) : RuntimeState :=
  { s with cache := s.cache.insert tenant (s.published tenant compiled) }

/-! ### The steps of a goroutine -/

def setPhase (id : ℕ) (p : Principal) (phase : CallPhase) : RuntimeState :=
  { s with calls := s.calls.insert id ⟨p, phase⟩ }

def setRepair (id : ℕ) (phase : RepairPhase) : RuntimeState :=
  { s with repairs := s.repairs.insert id phase }

/-- The end of a round whose load was overtaken. -/
def retryPhase : ℕ → CallPhase
  | 0 => .done (.error (.plain "runtime snapshot changed during load"))
  | left + 1 => .lookup left

section Steps

variable (platform : Platform) (quote : String → String)

/-- The read of the store and the compilation; `fault` is an error of the
database or of the context. -/
def loaded (s : RuntimeState) (p : Principal) (fault : Option StoreError) :
    Except RuntimeError Catalog :=
  match fault with
  | some e => .error (.store e)
  | none =>
    match snapshot platform s.store p true with
    | .error e => .error (.store e)
    | .ok raw =>
      if raw.revision < 0 then .error (.plain "invalid snapshot revision")
      else match compile platform quote raw with
        | .error e => .error (.compile e)
        | .ok compiled => .ok compiled

/-- The phase after the section that reads the cache. -/
def lookupPhase (s : RuntimeState) (tenant : String) (left : ℕ) : CallPhase :=
  match s.cache.lookup tenant with
  | some entry => .done (.ok entry.catalog.snapshot)
  | none => .load left (s.generationOf tenant)

/-- One step of a call of `Snapshot` or `RefreshSnapshot`. -/
def advance (s : RuntimeState) (id : ℕ) (fault : Option StoreError) : RuntimeState :=
  match s.calls.lookup id with
  | none => s
  | some ⟨p, phase⟩ =>
    match phase with
    | .refresh => (s.invalidate p.tenantID 0).setPhase id p (.lookup 1)
    | .lookup left => s.setPhase id p (s.lookupPhase p.tenantID left)
    | .load left generation =>
      match s.loaded platform quote p fault with
      | .error e => s.setPhase id p (.done (.error e))
      | .ok compiled => s.setPhase id p (.publish left generation compiled)
    | .publish left generation compiled =>
      if s.generationOf p.tenantID ≠ generation then s.setPhase id p (retryPhase left)
      else
        (s.publish p.tenantID compiled).setPhase id p
          (.done (.ok (s.published p.tenantID compiled).catalog.snapshot))
    | .done _ => s

/-- A call begins: the principal comes from the context. -/
def begin (s : RuntimeState) (id : ℕ) (p : Option Principal) (refresh : Bool) : RuntimeState :=
  if (s.calls.lookup id).isSome then s
  else match p with
    | none => s.setPhase id {} (.done (.error (.plain "tenant principal required")))
    | some p =>
      if p.tenantID = "" then s.setPhase id p (.done (.error (.plain "tenant principal required")))
      else s.setPhase id p (if refresh then .refresh else .lookup 1)

/-- One step of `repair`.  The cached tenants are listed in the order `order`;
`ended` is the end of the context, `fault` an error of the database. -/
def repairStep (s : RuntimeState) (id : ℕ) (order : List String) (ended fault : Bool) :
    RuntimeState :=
  match s.repairs.lookup id with
  | none => s.setRepair id .list
  | some .list => s.setRepair id (.next (order.filter fun t => (s.cache.lookup t).isSome))
  | some (.next []) => { s with repairs := s.repairs.erase id }
  | some (.next (tenant :: rest)) =>
    if ended then { s with repairs := s.repairs.erase id }
    else s.setRepair id (if fault then .next rest else .compare tenant s.store.revision rest)
  | some (.compare tenant revision rest) =>
    s.setRepair id
      (if (s.cache.lookup tenant).any fun entry => decide (entry.revision < revision) then
        .invalidate tenant revision rest else .next rest)
  | some (.invalidate tenant revision rest) =>
    (s.invalidate tenant revision).setRepair id (.next rest)

end Steps

end RuntimeState

/-! ### Runs -/

/-- What the scheduler and the rest of the system do next. -/
inductive RuntimeOp where
  /-- a transaction commits: any store whose revision is not lower -/
  | commit (other : Store)
  /-- the listener is called for a commit that has happened -/
  | onConfigCommit (tenant : String) (revision : ℤ)
  /-- a message of another process -/
  | invalidate (tenant : String) (revision : ℤ)
  | begin (id : ℕ) (p : Option Principal) (refresh : Bool)
  | advance (id : ℕ) (fault : Option StoreError)
  | repair (id : ℕ) (order : List String) (ended fault : Bool)

/-- One step of the system. -/
def RuntimeOp.step (platform : Platform) (quote : String → String) (s : RuntimeState) :
    RuntimeOp → RuntimeState
  | .commit other => { s with store := { other with revision := max s.store.revision other.revision } }
  | .onConfigCommit tenant revision =>
    if revision ≤ s.store.revision then s.onConfigCommit tenant else s
  | .invalidate tenant revision => s.invalidate tenant revision
  | .begin id p refresh => s.begin id p refresh
  | .advance id fault => s.advance platform quote id fault
  | .repair id order ended fault => s.repairStep id order ended fault

/-- The state of a run that starts with an empty cache over a store. -/
def runtimeAfter (platform : Platform) (quote : String → String) (store : Store)
    (ops : List RuntimeOp) : RuntimeState :=
  run (RuntimeOp.step platform quote) { store := store } ops

variable {raw : RuntimeSnapshot} {i : ℕ} {t : String} {r : ℤ}

/-! ### What the sections do to the shared part -/

namespace RuntimeState

variable {platform : Platform} {quote : String → String} {s s' : RuntimeState} {t : String}

/-- An invalidation: generations rise, entries go, the rest stays. -/
structure Weakens (s s' : RuntimeState) : Prop where
  store : s'.store = s.store
  calls : s'.calls = s.calls
  generation : ∀ t, s.generationOf t ≤ s'.generationOf t
  cache : ∀ t, s'.cache.lookup t = s.cache.lookup t ∨ s'.cache.lookup t = none

theorem Weakens.refl (s : RuntimeState) : Weakens s s :=
  ⟨rfl, rfl, fun _ => le_refl _, fun _ => .inl rfl⟩

theorem Weakens.entry {e : CachedSnapshot} (hw : Weakens s s') (he : s'.cache.lookup t = some e) :
    s.cache.lookup t = some e := by
  rcases hw.cache t with hsame | hnone
  · exact hsame ▸ he
  · rw [hnone] at he
    cases he

theorem generationOf_raise (s : RuntimeState) (tenant t : String) :
    (s.raiseGeneration tenant).generationOf t =
      if t = tenant then s.generationOf t + 1 else s.generationOf t := by
  unfold raiseGeneration generationOf
  by_cases ht : t = tenant
  · subst ht
    simp [AList.lookup_insert]
  · simp [AList.lookup_insert_ne ht, ht]

theorem le_generationOf_raise (s : RuntimeState) (tenant t : String) :
    s.generationOf t ≤ (s.raiseGeneration tenant).generationOf t := by
  rw [generationOf_raise]
  split
  · exact Nat.le_succ _
  · exact le_refl _

theorem lookup_erase_cases (c : Table String CachedSnapshot) (tenant t : String) :
    (c.erase tenant).lookup t = c.lookup t ∨ (c.erase tenant).lookup t = none := by
  by_cases ht : t = tenant
  · subst ht
    exact .inr (AList.lookup_erase t c)
  · exact .inl (AList.lookup_erase_ne ht)

theorem weakens_invalidate (s : RuntimeState) (tenant : String) (revision : ℤ) :
    Weakens s (s.invalidate tenant revision) := by
  unfold invalidate
  split
  · exact .refl s
  simp only
  split
  · split
    · exact ⟨rfl, rfl, le_generationOf_raise s tenant, lookup_erase_cases s.cache tenant⟩
    · exact ⟨rfl, rfl, le_generationOf_raise s tenant, fun _ => .inl rfl⟩
  · exact ⟨rfl, rfl, le_generationOf_raise s tenant, fun _ => .inl rfl⟩

theorem weakens_onConfigCommit (s : RuntimeState) (tenant : String) :
    Weakens s (s.onConfigCommit tenant) := by
  unfold onConfigCommit
  split
  · exact .refl s
  · exact ⟨rfl, rfl, le_generationOf_raise s tenant, lookup_erase_cases s.cache tenant⟩

theorem weakens_repairStep (s : RuntimeState) (id : ℕ) (order : List String) (ended fault : Bool) :
    Weakens s (s.repairStep id order ended fault) := by
  have hkeep : ∀ repairs, Weakens s { s with repairs := repairs } :=
    fun _ => ⟨rfl, rfl, fun _ => le_refl _, fun _ => .inl rfl⟩
  unfold repairStep
  split
  · exact hkeep _
  · exact hkeep _
  · exact hkeep _
  · split <;> exact hkeep _
  · exact hkeep _
  next tenant revision rest _ =>
  have hw := weakens_invalidate s tenant revision
  exact ⟨hw.store, hw.calls, hw.generation, hw.cache⟩

/-! ### What a step does -/

/-- The moves of a goroutine between two of its phases. -/
inductive Moves (platform : Platform) (quote : String → String) (s : RuntimeState)
    (p : Principal) : CallPhase → RuntimeState → CallPhase → Prop
  | refresh : Moves platform quote s p .refresh (s.invalidate p.tenantID 0) (.lookup 1)
  | hit {left : ℕ} {entry : CachedSnapshot} (h : s.cache.lookup p.tenantID = some entry) :
    Moves platform quote s p (.lookup left) s (.done (.ok entry.catalog.snapshot))
  | miss {left : ℕ} : Moves platform quote s p (.lookup left) s
      (.load left (s.generationOf p.tenantID))
  | failed {left generation : ℕ} {e : RuntimeError} :
    Moves platform quote s p (.load left generation) s (.done (.error e))
  | read {left generation : ℕ} {fault : Option StoreError} {compiled : Catalog}
    (h : s.loaded platform quote p fault = .ok compiled) :
    Moves platform quote s p (.load left generation) s (.publish left generation compiled)
  | overtaken {left generation : ℕ} {compiled : Catalog} :
    Moves platform quote s p (.publish left generation compiled) s (retryPhase left)
  | published {left generation : ℕ} {compiled : Catalog}
    (h : s.generationOf p.tenantID = generation) :
    Moves platform quote s p (.publish left generation compiled) (s.publish p.tenantID compiled)
      (.done (.ok (s.published p.tenantID compiled).catalog.snapshot))

/-- The phases a call begins in. -/
inductive Begins (p : Principal) : CallPhase → Prop
  | refused (e : RuntimeError) : Begins p (.done (.error e))
  | refresh (h : p.tenantID ≠ "") : Begins p .refresh
  | lookup (h : p.tenantID ≠ "") : Begins p (.lookup 1)

/-- Everything a step of the system can do. -/
inductive Change (platform : Platform) (quote : String → String) (s : RuntimeState) :
    RuntimeState → Prop
  | commits {store : Store} (h : s.store.revision ≤ store.revision) :
    Change platform quote s { s with store := store }
  | weakens {s' : RuntimeState} (h : Weakens s s') : Change platform quote s s'
  | begins {id : ℕ} {p : Principal} {phase : CallPhase} (hnew : s.calls.lookup id = none)
    (h : Begins p phase) : Change platform quote s (s.setPhase id p phase)
  | moves {id : ℕ} {p : Principal} {phase phase' : CallPhase} {s₁ : RuntimeState}
    (hcall : s.calls.lookup id = some ⟨p, phase⟩) (h : Moves platform quote s p phase s₁ phase') :
    Change platform quote s (s₁.setPhase id p phase')

section

variable (platform quote s)

theorem change_begin (id : ℕ) (p : Option Principal) (refresh : Bool) :
    Change platform quote s (s.begin id p refresh) := by
  unfold begin
  split
  · exact .weakens (.refl s)
  next hnew =>
  have hnew : s.calls.lookup id = none := by simpa using hnew
  split
  · exact .begins hnew (.refused _)
  split
  · exact .begins hnew (.refused _)
  next hp =>
  cases refresh with
  | true => exact .begins hnew (.refresh hp)
  | false => exact .begins hnew (.lookup hp)

theorem change_advance (id : ℕ) (fault : Option StoreError) :
    Change platform quote s (s.advance platform quote id fault) := by
  unfold advance
  split
  · exact .weakens (.refl s)
  next p phase hcall =>
  cases phase with
  | refresh => exact .moves hcall .refresh
  | lookup left =>
    simp only [lookupPhase]
    split
    · next entry hentry => exact .moves hcall (.hit hentry)
    · exact .moves hcall .miss
  | load left generation =>
    simp only
    split
    · exact .moves hcall .failed
    · next compiled hread => exact .moves hcall (.read hread)
  | publish left generation compiled =>
    simp only
    split
    · exact .moves hcall .overtaken
    · next hsame => exact .moves hcall (.published (not_not.1 hsame))
  | done answer => exact .weakens (.refl s)

theorem change_step (op : RuntimeOp) : Change platform quote s (op.step platform quote s) := by
  cases op with
  | commit other => exact .commits (le_max_left _ _)
  | onConfigCommit tenant revision =>
    simp only [RuntimeOp.step]
    split
    · exact .weakens (weakens_onConfigCommit s tenant)
    · exact .weakens (.refl s)
  | invalidate tenant revision => exact .weakens (weakens_invalidate s tenant revision)
  | begin id p refresh => exact change_begin platform quote s id p refresh
  | advance id fault => exact change_advance platform quote s id fault
  | repair id order ended fault => exact .weakens (weakens_repairStep s id order ended fault)

end

/-! ### Soundness -/

/-- The generation a call started its load with. -/
def loadGeneration : CallPhase → Option ℕ
  | .load _ generation | .publish _ generation _ => some generation
  | .refresh | .lookup _ | .done _ => none

/-- The calls know no generation that has not been, and the empty tenant has
neither entry nor answer. -/
structure Sound (s : RuntimeState) : Prop where
  entry : ∀ t e, s.cache.lookup t = some e → t ≠ ""
  named : ∀ id c, s.calls.lookup id = some c → c.principal.tenantID = "" →
    ∃ e, c.phase = .done (.error e)
  generation : ∀ id c, s.calls.lookup id = some c → ∀ g, loadGeneration c.phase = some g →
    g ≤ s.generationOf c.principal.tenantID

variable {id : ℕ} {p : Principal} {phase : CallPhase} {tenant : String} {fault : Option StoreError}
  {compiled : Catalog}

theorem Sound.weakens (h : Sound s) (hw : Weakens s s') : Sound s' := by
  refine ⟨?_, ?_, ?_⟩
  · exact fun t e he => h.entry t e (hw.entry he)
  · rw [hw.calls]
    exact h.named
  · rw [hw.calls]
    intro id c hc g hg
    exact (h.generation id c hc g hg).trans (hw.generation _)

theorem Sound.setPhase (h : Sound s) (hnamed : p.tenantID = "" → ∃ e, phase = .done (.error e))
    (hgen : ∀ g, loadGeneration phase = some g → g ≤ s.generationOf p.tenantID) :
    Sound (s.setPhase id p phase) := by
  refine ⟨h.entry, ?_, ?_⟩
  · exact forall_insert h.named hnamed
  · exact forall_insert h.generation hgen

theorem Sound.publish (h : Sound s) (compiled : Catalog) (ht : tenant ≠ "") :
    Sound (s.publish tenant compiled) :=
  ⟨forall_insert h.entry ht, h.named, h.generation⟩

theorem Sound.change (h : Sound s) (hc : Change platform quote s s') : Sound s' := by
  cases hc with
  | commits _ => exact ⟨h.entry, h.named, h.generation⟩
  | weakens hw => exact h.weakens hw
  | begins hnew hb =>
    cases hb with
    | refused e => exact h.setPhase (fun _ => ⟨e, rfl⟩) nofun
    | refresh hp | lookup hp => exact h.setPhase (fun hp' => absurd hp' hp) nofun
  | moves hcall hm =>
    next id p phase phase' s₁ =>
    -- a call without a tenant is done
    have hp : p.tenantID ≠ "" := by
      intro hp
      obtain ⟨e, he⟩ := h.named id _ hcall hp
      cases he
      cases hm
    have hnamed : p.tenantID = "" → ∃ e, phase' = .done (.error e) := fun hp' => absurd hp' hp
    cases hm with
    | refresh =>
      exact (h.weakens (weakens_invalidate s p.tenantID 0)).setPhase hnamed nofun
    | hit _ | failed => exact h.setPhase hnamed nofun
    | miss =>
      refine h.setPhase hnamed fun g hg => ?_
      cases hg
      exact le_refl _
    | read _ => exact h.setPhase hnamed (h.generation id _ hcall)
    | @overtaken left =>
      refine h.setPhase hnamed fun g hg => ?_
      cases left <;> cases hg
    | published _ => exact (h.publish _ hp).setPhase hnamed nofun

/-! ### Catalogs and answers -/

/-- Every catalog that is cached or can still be published is related to its tenant
by `R`, and every answer to its call and tenant by `A`. -/
structure Keeps (R : String → Catalog → Prop) (A : ℕ → String → RuntimeSnapshot → Prop)
    (s : RuntimeState) : Prop where
  cache : ∀ t e, s.cache.lookup t = some e → R t e.catalog
  load : ∀ id c, s.calls.lookup id = some c → ∀ left g compiled,
    c.phase = .publish left g compiled → g = s.generationOf c.principal.tenantID →
      R c.principal.tenantID compiled
  answer : ∀ id c, s.calls.lookup id = some c → ∀ snap, c.phase = .done (.ok snap) →
    A id c.principal.tenantID snap

variable {R : String → Catalog → Prop} {A : ℕ → String → RuntimeSnapshot → Prop}

/-- A load that started before a higher generation is not the current one. -/
theorem Keeps.weakens (hs : Sound s) (h : Keeps R A s) (hw : Weakens s s') : Keeps R A s' := by
  refine ⟨fun t e he => h.cache t e (hw.entry he), ?_, by rw [hw.calls]; exact h.answer⟩
  rw [hw.calls]
  intro id c hc left g compiled hphase hg
  have hle := hs.generation id c hc g (by rw [hphase]; rfl)
  exact h.load id c hc left g compiled hphase (le_antisymm hle (hg ▸ hw.generation _))

theorem Keeps.setPhase (h : Keeps R A s)
    (hload : ∀ left g compiled, phase = .publish left g compiled → g = s.generationOf p.tenantID →
      R p.tenantID compiled) (hanswer : ∀ snap, phase = .done (.ok snap) → A id p.tenantID snap) :
    Keeps R A (s.setPhase id p phase) :=
  ⟨h.cache, forall_insert h.load hload, forall_insert h.answer hanswer⟩

/-- The entry that is published is the new one or the one that was there. -/
theorem Keeps.published (h : Keeps R A s) (hc : R tenant compiled) :
    R tenant (s.published tenant compiled).catalog := by
  unfold RuntimeState.published
  split
  · next current hcurrent =>
    split
    · exact hc
    · exact h.cache tenant current hcurrent
  · exact hc

/-- A step that reads only catalogs related by `R`, of which answers are related by `A`. -/
theorem Keeps.change (hs : Sound s) (h : Keeps R A s) (hc : Change platform quote s s')
    (hread : ∀ p fault compiled, s.loaded platform quote p fault = .ok compiled →
      R p.tenantID compiled) (hanswer : ∀ id t c, R t c → A id t c.snapshot) : Keeps R A s' := by
  cases hc with
  | commits _ => exact ⟨h.cache, h.load, h.answer⟩
  | weakens hw => exact h.weakens hs hw
  | begins _ hb =>
    exact h.setPhase (fun _ _ _ hphase => by cases hb <;> cases hphase)
      (fun _ hphase => by cases hb <;> cases hphase)
  | moves hcall hm =>
    next id p phase phase' s₁ =>
    cases hm with
    | refresh => exact (h.weakens hs (weakens_invalidate s p.tenantID 0)).setPhase nofun nofun
    | hit hentry =>
      refine h.setPhase nofun fun snap hphase => ?_
      cases hphase
      exact hanswer _ _ _ (h.cache _ _ hentry)
    | miss | failed => exact h.setPhase nofun nofun
    | read hloaded =>
      refine h.setPhase (fun _ _ _ hphase _ => ?_) nofun
      cases hphase
      exact hread _ _ _ hloaded
    | overtaken =>
      next left _ _ =>
      exact h.setPhase (fun _ _ _ hphase => by cases left <;> cases hphase)
        (fun _ hphase => by cases left <;> cases hphase)
    | published hg =>
      have hpublished := h.published (h.load id _ hcall _ _ _ rfl hg.symm)
      have hkeeps : Keeps R A (s.publish p.tenantID _) :=
        ⟨forall_insert h.cache hpublished, h.load, h.answer⟩
      refine hkeeps.setPhase nofun fun snap hphase => ?_
      cases hphase
      exact hanswer _ _ _ hpublished

/-- No step lowers the revision of the store. -/
theorem Change.revision_le (hc : Change platform quote s s') :
    s.store.revision ≤ s'.store.revision := by
  cases hc with
  | commits hle => exact hle
  | weakens hw => rw [hw.store]
  | begins => exact le_refl _
  | moves _ hm =>
    cases hm with
    | refresh => exact (congrArg Store.revision (weakens_invalidate s _ 0).store).ge
    | hit | miss | failed | read | overtaken | published => exact le_refl _

/-- The catalog of a load has the revision of the store it read. -/
theorem loaded_ok (h : s.loaded platform quote p fault = .ok compiled) :
    ∃ raw, snapshot platform s.store p true = .ok raw ∧ compile platform quote raw = .ok compiled := by
  unfold loaded at h
  split at h
  · cases h
  split at h
  · cases h
  next raw hraw =>
  split at h
  · cases h
  split at h
  · cases h
  next hcompiled =>
  cases h
  exact ⟨raw, hraw, hcompiled⟩

/-- A snapshot is a snapshot of the tenant of the principal, at the revision
of the store. -/
theorem snapshot_ok {store : Store} (h : snapshot platform store p true = .ok raw) :
    snapshotOf platform store p.tenantID = .ok raw ∧ raw.revision = store.revision := by
  obtain ⟨q, hq, hraw⟩ := Check.bind_ok.1 h
  rw [snapshotPrincipal_tenantID hq] at hraw
  refine ⟨hraw, ?_⟩
  obtain ⟨_, _, hraw⟩ := Check.bind_ok.1 hraw
  obtain ⟨_, _, hraw⟩ := Check.bind_ok.1 hraw
  cases hraw
  rfl

theorem loaded_revision (h : s.loaded platform quote p fault = .ok compiled) :
    compiled.revision = s.store.revision := by
  obtain ⟨raw, hraw, hcompiled⟩ := loaded_ok h
  exact ((yields_compile_copied platform quote raw).2 _ hcompiled).2.1.trans (snapshot_ok hraw).2

/-- A catalog of the tenant is not older than the revision `r`. -/
def NotOlder (t : String) (r : ℤ) (t' : String) (c : Catalog) : Prop := t' = t → r ≤ c.revision

end RuntimeState

/-! ### The announcement -/

/-- The announcement of a commit that has happened: the entry goes, and no
load that has started is current. -/
theorem RuntimeState.keeps_onConfigCommit {s : RuntimeState} (h : s.Sound) :
    (s.onConfigCommit t).Keeps (NotOlder t r) fun _ _ _ => True := by
  by_cases ht : t = ""
  · -- no entry and no load of the empty tenant exists
    have hsame : s.onConfigCommit t = s := if_pos ht
    rw [hsame]
    refine ⟨fun t' e he ht' => absurd (ht'.trans ht) (h.entry t' e he), ?_, fun _ _ _ _ _ => trivial⟩
    intro id c hc left g compiled hphase _ hct
    obtain ⟨e, he⟩ := h.named id c hc (hct.trans ht)
    rw [he] at hphase
    cases hphase
  · have hs : s.onConfigCommit t =
        { s.raiseGeneration t with cache := s.cache.erase t } := if_neg ht
    have hgen : (s.onConfigCommit t).generationOf t = s.generationOf t + 1 := by
      rw [hs]
      exact (RuntimeState.generationOf_raise s t t).trans (if_pos rfl)
    refine ⟨?_, ?_, fun _ _ _ _ _ => trivial⟩
    · rintro t' e he rfl
      rw [hs] at he
      rw [show (s.cache.erase t').lookup t' = none from AList.lookup_erase t' s.cache] at he
      cases he
    · rw [(RuntimeState.weakens_onConfigCommit s t).calls]
      intro id c hc left g compiled hphase hg hct
      have hle := h.generation id c hc g (by rw [hphase]; rfl)
      rw [hct] at hle hg
      omega

section Runs

variable {platform : Platform} {quote : String → String} {store : Store} {ops : List RuntimeOp}

theorem sound_runtimeAfter (n : ℕ) : (runtimeAfter platform quote store (ops.take n)).Sound := by
  refine run_inv_of_step
    (fun s op h => h.change (RuntimeState.change_step platform quote s op)) ?_ _
  exact ⟨(fun _ _ h => nomatch h), (fun _ _ h => nomatch h), (fun _ _ h => nomatch h)⟩

/-- A run in which nothing older can be published goes on like that. -/
theorem keeps_runtimeAfter {A : ℕ → String → RuntimeSnapshot → Prop} {m n : ℕ} (hmn : m ≤ n)
    (hanswer : ∀ id t' c, RuntimeState.NotOlder t r t' c → A id t' c.snapshot)
    (hm : r ≤ (runtimeAfter platform quote store (ops.take m)).store.revision ∧
      (runtimeAfter platform quote store (ops.take m)).Keeps (RuntimeState.NotOlder t r) A) :
    r ≤ (runtimeAfter platform quote store (ops.take n)).store.revision ∧
      (runtimeAfter platform quote store (ops.take n)).Keeps (RuntimeState.NotOlder t r) A := by
  refine run_take_inv (I := fun s : RuntimeState =>
    r ≤ s.store.revision ∧ s.Keeps (RuntimeState.NotOlder t r) A) hmn hm ?_
  rintro m op - - - ⟨hr, hk⟩
  have hc := RuntimeState.change_step platform quote
    (run (RuntimeOp.step platform quote) { store := store } (ops.take m)) op
  refine ⟨hr.trans hc.revision_le, hk.change (sound_runtimeAfter m) hc ?_ hanswer⟩
  -- a load reads the present store, which has been committed
  intro p fault compiled hloaded _
  rw [RuntimeState.loaded_revision hloaded]
  exact hr

/-- The snapshot is the other one, table by table. -/
structure RuntimeSnapshot.Agrees (a b : RuntimeSnapshot) : Prop where
  revision : a.revision = b.revision
  policy : a.policy = b.policy
  connections : ∀ k, a.connections.lookup k = b.connections.lookup k
  models : ∀ k, a.models.lookup k = b.models.lookup k
  aliases : ∀ k, a.aliases.lookup k = b.aliases.lookup k
  routePolicies : ∀ k, a.routePolicies.lookup k = b.routePolicies.lookup k
  accountPools : ∀ k, a.accountPools.lookup k = b.accountPools.lookup k

/-- The copy of a compiled snapshot is the snapshot. -/
theorem agrees_of_compile {c : Catalog} (h : compile platform quote raw = .ok c) :
    c.snapshot.Agrees raw := by
  obtain ⟨hholds, hrevision, hpolicy⟩ := (yields_compile_copied platform quote raw).2 c h
  exact ⟨hrevision, hpolicy, hholds.knows.connections, hholds.knows.models, hholds.aliases,
    hholds.routePolicies, hholds.accountPools⟩

/-- Every answer is the snapshot of one committed state of the run. -/
theorem origin_runtimeAfter (n : ℕ) :
    (runtimeAfter platform quote store (ops.take n)).Keeps
      (fun t c => ∃ m ≤ n, ∃ raw, snapshotOf platform
        (runtimeAfter platform quote store (ops.take m)).store t = .ok raw ∧
        compile platform quote raw = .ok c)
      (fun _ t snap => ∃ m ≤ n, ∃ raw, snapshotOf platform
        (runtimeAfter platform quote store (ops.take m)).store t = .ok raw ∧ snap.Agrees raw) := by
  refine run_take_inv (Nat.zero_le n) ?_ ?_
  · exact ⟨(fun _ _ h => nomatch h), (fun _ _ h => nomatch h), (fun _ _ h => nomatch h)⟩
  · intro m op _ hm _ h
    refine h.change (sound_runtimeAfter m) (RuntimeState.change_step platform quote _ op) ?_ ?_
    · intro p fault c hc
      obtain ⟨raw, hraw, hcompiled⟩ := RuntimeState.loaded_ok hc
      exact ⟨m, hm.le, raw, (RuntimeState.snapshot_ok hraw).1, hcompiled⟩
    · rintro id t c ⟨m, hm, raw, hraw, hcompiled⟩
      exact ⟨m, hm, raw, hraw, agrees_of_compile hcompiled⟩

end Runs

/-- **Fresh snapshots.**  In every run, a call for the tenant that does not
exist when `onConfigCommit` has returned for the revision `r` answers with a
revision not below `r`; and whatever a call answers with is, table by table,
the snapshot of its tenant in one committed state of the run. -/
theorem snapshots_fresh (platform : Platform) (quote : String → String) (store : Store)
    (ops : List RuntimeOp) :
    (∀ i j n t r id c snap, ops[i]? = some (.onConfigCommit t r) →
      r ≤ (runtimeAfter platform quote store (ops.take i)).store.revision → i < j → j ≤ n →
      (runtimeAfter platform quote store (ops.take j)).calls.lookup id = none →
      (runtimeAfter platform quote store (ops.take n)).calls.lookup id = some c →
      c.principal.tenantID = t → c.phase = .done (.ok snap) → r ≤ snap.revision) ∧
    ∀ n id c snap, (runtimeAfter platform quote store (ops.take n)).calls.lookup id = some c →
      c.phase = .done (.ok snap) →
      ∃ m ≤ n, ∃ raw, snapshotOf platform (runtimeAfter platform quote store (ops.take m)).store
        c.principal.tenantID = .ok raw ∧ snap.Agrees raw := by
  constructor
  · intro i j n t r id c snap hcommit hr hij hjn hnew hcall ht hdone
    have hstep : runtimeAfter platform quote store (ops.take (i + 1)) =
        (runtimeAfter platform quote store (ops.take i)).onConfigCommit t :=
      (run_take_succ hcommit).trans (if_pos hr)
    have hsound : (runtimeAfter platform quote store (ops.take i)).Sound := sound_runtimeAfter i
    obtain ⟨hrj, hkeeps⟩ := keeps_runtimeAfter (A := fun _ _ _ => True) hij (fun _ _ _ _ => trivial)
      (by
        rw [hstep, (RuntimeState.weakens_onConfigCommit _ t).store]
        exact ⟨hr, RuntimeState.keeps_onConfigCommit hsound⟩)
    -- the call does not exist yet, so that it has no answer
    have hanswers := (keeps_runtimeAfter (A := fun id' t' snap => id' = id → t' = t →
      r ≤ snap.revision) hjn (fun _ _ _ hc _ => hc) ⟨hrj, hkeeps.cache, hkeeps.load, ?_⟩).2
    · exact hanswers.answer id c hcall snap hdone rfl ht
    · rintro id' c' hc' _ _ rfl
      exact absurd (hnew.symm.trans hc') (by simp)
  · exact fun n id c snap hcall hdone => (origin_runtimeAfter n).answer id c hcall snap hdone

/-- A load that is overtaken by a commit, and a call that refreshes after it. -/
def overtakenLoad : List RuntimeOp :=
  [.begin 0 (some { tenantID := "t" }) false, .advance 0 none, .advance 0 none,
    .commit { revision := 1 }, .onConfigCommit "t" 1, .begin 1 (some { tenantID := "t" }) true,
    .advance 0 none, .advance 1 none, .advance 1 none, .advance 1 none, .advance 1 none]

/-- The snapshot of a call that is done. -/
def CallPhase.snapshot : CallPhase → Option RuntimeSnapshot
  | .done (.ok snap) => some snap
  | _ => none

theorem overtakenLoad_fresh :
    ∃ c snap, (runtimeAfter samplePlatform plainQuote {} overtakenLoad).calls.lookup 1 = some c ∧
      c.phase = .done (.ok snap) ∧ 1 ≤ snap.revision := by
  have hrun : ((runtimeAfter samplePlatform plainQuote {} overtakenLoad).calls.lookup 1).map
      (fun c => (c.principal.tenantID, c.phase.snapshot.isSome)) = some ("t", true) := by
    decide +kernel
  obtain ⟨c, hc, hanswer⟩ := Option.map_eq_some_iff.1 hrun
  obtain ⟨htenant, hsome⟩ := Prod.mk.inj hanswer
  obtain ⟨snap, hsnap⟩ := Option.isSome_iff_exists.1 hsome
  have hphase : c.phase = .done (.ok snap) := by
    unfold CallPhase.snapshot at hsnap
    split at hsnap
    · next hphase =>
      cases hsnap
      exact hphase
    · cases hsnap
  refine ⟨c, snap, hc, hphase, ?_⟩
  exact (snapshots_fresh samplePlatform plainQuote {} overtakenLoad).1 4 5 11 "t" 1 1 c snap rfl
    (by decide +kernel) (by decide) (by decide) (by decide +kernel) hc htenant hphase

end Hoorific
