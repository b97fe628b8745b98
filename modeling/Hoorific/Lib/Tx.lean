/-
Serial atomic transactions.  A transaction body is a computation in
`Tx σ ε` (state over errors); `Tx.Runs m s a s'` is its successful
big-step relation, and `Tx.commit` runs a body as a transaction: the
state it built becomes the new state if it returned a value, and the old
state stays if it failed.

Bodies are straight-line `do` blocks over four primitives besides `get`
and `modify`:

* `require c e`  -- fail with `e` unless `c`;
* `orFail o e`   -- the value of `o`, or fail with `e`;
* `liftE r`      -- the value of a pure check, or its error;
* `List.foldlM`  -- a loop over a fixed list with an accumulator.

Each has one inversion lemma (`runs_bind`, `runs_require`, ...), all of
them equivalences and in the simp set, so a proof about a body peels it
apart once and never unfolds the monad; equations of states run from the
earlier to the later one, so that substituting them keeps the first name.
A long body is peeled from its head with `runs_require_bind` and its
companions, which name no state that is not new.  Loops have an induction
rule (`runs_foldlM_induct`) whose motive sees the part of the list already
processed.
-/
import Mathlib.Data.List.Basic

namespace Hoorific

/-- The body of a transaction over states `σ` that may fail with `ε`. -/
abbrev Tx (σ ε : Type) := StateT σ (Except ε)

namespace Tx

variable {σ ε α β : Type}

/-! ### The primitives -/

/-- Fail with `e` unless `c` holds. -/
def require (c : Bool) (e : ε) : Tx σ ε Unit :=
  if c then pure () else throw e

/-- The value of `o`, or the failure `e`. -/
def orFail (o : Option α) (e : ε) : Tx σ ε α :=
  match o with
  | some a => pure a
  | none => throw e

/-- A pure check inside a transaction. -/
def liftE (r : Except ε α) : Tx σ ε α :=
  match r with
  | .ok a => pure a
  | .error e => throw e

/-! ### The big-step relation -/

/-- The body `m`, started in `s`, returns `a` and leaves `s'`. -/
def Runs (m : Tx σ ε α) (s : σ) (a : α) (s' : σ) : Prop := m.run s = .ok (a, s')

instance [DecidableEq α] [DecidableEq σ] [DecidableEq ε] (m : Tx σ ε α) (s : σ) (a : α) (s' : σ) :
    Decidable (Runs m s a s') :=
  inferInstanceAs (Decidable (m.run s = .ok (a, s')))

variable {m : Tx σ ε α} {f : α → Tx σ ε β} {s s' : σ} {a : α} {b : β}

@[simp] theorem runs_bind : Runs (m >>= f) s b s' ↔ ∃ a s₁, Runs m s a s₁ ∧ Runs (f a) s₁ b s' := by
  simp only [Runs, StateT.run_bind]
  constructor
  · intro h
    rcases hm : m.run s with e | ⟨a, s₁⟩
    · simp [hm, bind, Except.bind] at h
    · exact ⟨a, s₁, rfl, by simpa [hm, bind, Except.bind] using h⟩
  · rintro ⟨a, s₁, hm, hf⟩
    simpa [hm, bind, Except.bind] using hf

theorem Runs.bind (h : Runs m s a s₁) (hf : Runs (f a) s₁ b s') : Runs (m >>= f) s b s' :=
  runs_bind.2 ⟨a, s₁, h, hf⟩

@[simp] theorem runs_pure {a' : α} : Runs (pure a' : Tx σ ε α) s a s' ↔ a' = a ∧ s = s' := by
  rw [Runs, StateT.run_pure]
  simp [pure, Except.pure]

@[simp] theorem runs_throw {e : ε} : ¬ Runs (throw e : Tx σ ε α) s a s' := by
  simp [Runs, throw, throwThe, MonadExceptOf.throw, StateT.run, StateT.lift, bind, Except.bind]

@[simp] theorem runs_get {x : σ} : Runs (get : Tx σ ε σ) s x s' ↔ s = x ∧ s = s' := by
  simp [Runs, pure, Except.pure]

variable {g : σ → σ} {u : Unit} {c : Bool} {r : Except ε α} {m₁ m₂ : Tx σ ε α} {l : List α} {b' : β}

@[simp] theorem runs_modify : Runs (modify g : Tx σ ε Unit) s u s' ↔ g s = s' := by
  simp [Runs, pure, Except.pure]

@[simp] theorem runs_require {e : ε} :
    Runs (require c e : Tx σ ε Unit) s u s' ↔ c = true ∧ s = s' := by
  cases c <;> simp [require]

@[simp] theorem runs_orFail {o : Option α} {e : ε} :
    Runs (orFail o e : Tx σ ε α) s a s' ↔ o = some a ∧ s = s' := by
  cases o <;> simp [orFail]

@[simp] theorem runs_liftE : Runs (liftE r : Tx σ ε α) s a s' ↔ r = .ok a ∧ s = s' := by
  cases r <;> simp [liftE]

@[simp] theorem runs_ite {c : Prop} [Decidable c] :
    Runs (if c then m₁ else m₂) s a s' ↔ (c ∧ Runs m₁ s a s') ∨ (¬c ∧ Runs m₂ s a s') := by
  by_cases hc : c <;> simp [hc]

/-! ### Primitives at the head of a body

None of them but `modify` moves the state, so the state in between need not
be named. -/

theorem runs_get_bind {f : σ → Tx σ ε β} : Runs (get >>= f) s b s' ↔ Runs (f s) s b s' := by
  simp

theorem runs_modify_bind {f : Unit → Tx σ ε β} :
    Runs (modify g >>= f) s b s' ↔ Runs (f ()) (g s) b s' := by
  rw [runs_bind]
  constructor
  · rintro ⟨⟨⟩, s₁, hmodify, h⟩
    obtain rfl := runs_modify.1 hmodify
    exact h
  · exact fun h => ⟨(), g s, runs_modify.2 rfl, h⟩

theorem runs_require_bind {e : ε} {f : Unit → Tx σ ε β} :
    Runs (require c e >>= f) s b s' ↔ c = true ∧ Runs (f ()) s b s' := by
  rw [runs_bind]
  constructor
  · rintro ⟨⟨⟩, s₁, hrequire, h⟩
    obtain ⟨hc, rfl⟩ := runs_require.1 hrequire
    exact ⟨hc, h⟩
  · exact fun ⟨hc, h⟩ => ⟨(), s, runs_require.2 ⟨hc, rfl⟩, h⟩

theorem runs_orFail_bind {o : Option α} {e : ε} :
    Runs (orFail o e >>= f) s b s' ↔ ∃ a, o = some a ∧ Runs (f a) s b s' := by
  simp

theorem runs_liftE_bind : Runs (liftE r >>= f) s b s' ↔ ∃ a, r = .ok a ∧ Runs (f a) s b s' := by
  simp

/-! ### Loops -/

/-- A property of the processed part of the list, the accumulator and the
state, kept by every iteration, holds at the end of the loop. -/
theorem runs_foldlM_induct {f : β → α → Tx σ ε β} {b : β} {s s' : σ} (P : List α → β → σ → Prop)
    (h : Runs (l.foldlM f b) s b' s') (h0 : P [] b s)
    (step : ∀ done x c t c' t', done ++ [x] <+: l → P done c t → Runs (f c x) t c' t' →
      P (done ++ [x]) c' t') :
    P l b' s' := by
  -- the processed part is generalised to a prefix of the whole list
  suffices key : ∀ (rest done : List α) (c : β) (t : σ), l = done ++ rest → P done c t →
      Runs (rest.foldlM f c) t b' s' → P l b' s' from key l [] b s rfl h0 h
  intro rest
  induction rest with
  | nil =>
    intro done c t hl hP hrun
    obtain ⟨rfl, rfl⟩ := hrun
    rwa [hl, List.append_nil]
  | cons x rest ih =>
    intro done c t hl hP hrun
    simp only [List.foldlM_cons, runs_bind] at hrun
    obtain ⟨c₁, t₁, hx, hrest⟩ := hrun
    have hpre : done ++ [x] <+: l := ⟨rest, by simp [hl]⟩
    exact ih (done ++ [x]) c₁ t₁ (by simp [hl]) (step done x c t c₁ t₁ hpre hP hx) hrest

/-- The loop rule for a property that does not mention the processed part. -/
theorem runs_foldlM_inv {f : β → α → Tx σ ε β} {b : β} {s s' : σ} (P : β → σ → Prop)
    (h : Runs (l.foldlM f b) s b' s') (h0 : P b s)
    (step : ∀ x ∈ l, ∀ c t c' t', P c t → Runs (f c x) t c' t' → P c' t') :
    P b' s' := by
  refine runs_foldlM_induct (fun _ c t => P c t) h h0 ?_
  intro done x c t c' t' hpre hP hx
  exact step x (hpre.subset (by simp)) c t c' t' hP hx

/-- The loop rule for a loop over a list with its indices: the motive counts
the processed elements. -/
theorem runs_foldlM_zipIdx {f : β → α × ℕ → Tx σ ε β} {b : β} {s s' : σ} (P : ℕ → β → σ → Prop)
    (h : Runs (l.zipIdx.foldlM f b) s b' s') (h0 : P 0 b s)
    (step : ∀ n x c t c' t', l[n]? = some x → P n c t → Runs (f c (x, n)) t c' t' →
      P (n + 1) c' t') :
    P l.length b' s' := by
  have key := runs_foldlM_induct (fun done c t => P done.length c t) h h0 ?_
  · simpa using key
  · intro done x c t c' t' hpre hP hx
    -- the element after `done` stands at index `done.length`
    obtain ⟨rest, hl⟩ := hpre
    have hget : l.zipIdx[done.length]? = some x := by
      rw [← hl]
      simp
    rw [List.getElem?_zipIdx] at hget
    obtain ⟨y, hy, rfl⟩ := Option.map_eq_some_iff.1 hget
    simp only [Nat.zero_add] at hx
    rw [List.length_append]
    exact step done.length y c t c' t' hy hP hx

theorem forM_eq_foldlM (l : List α) (f : α → Tx σ ε Unit) :
    forM l f = l.foldlM (fun _ a => f a) () := by
  induction l with
  | nil => rfl
  | cons a l ih =>
    rw [List.forM_cons, List.foldlM_cons, ih]

/-- The loop rule for a loop without an accumulator. -/
theorem runs_forM_induct {f : α → Tx σ ε Unit} {s s' : σ} (P : List α → σ → Prop)
    (h : Runs (forM l f) s u s') (h0 : P [] s)
    (step : ∀ done x t v t', done ++ [x] <+: l → P done t → Runs (f x) t v t' →
      P (done ++ [x]) t') :
    P l s' := by
  rw [forM_eq_foldlM] at h
  refine runs_foldlM_induct (fun done _ t => P done t) h h0 ?_
  intro done x c t c' t' hpre hP hx
  exact step done x t c' t' hpre hP hx

/-! ### Failures -/

/-- The body `m`, started in `s`, fails with `e`. -/
def Fails (m : Tx σ ε α) (s : σ) (e : ε) : Prop := m.run s = .error e

section Fails

variable {e e' : ε}

@[simp] theorem fails_bind :
    Fails (m >>= f) s e ↔ Fails m s e ∨ ∃ a s₁, Runs m s a s₁ ∧ Fails (f a) s₁ e := by
  simp only [Fails, Runs, StateT.run_bind]
  rcases hm : m.run s with e₁ | ⟨a, s₁⟩ <;> simp [bind, Except.bind]

@[simp] theorem fails_pure : ¬ Fails (pure a : Tx σ ε α) s e := by
  rw [Fails, StateT.run_pure]
  simp [pure, Except.pure]

@[simp] theorem fails_get : ¬ Fails (get : Tx σ ε σ) s e := by
  simp [Fails, pure, Except.pure]

@[simp] theorem fails_modify : ¬ Fails (modify g : Tx σ ε Unit) s e := by
  simp [Fails, pure, Except.pure]

@[simp] theorem fails_throw : Fails (throw e' : Tx σ ε α) s e ↔ e' = e := by
  simp [Fails, throw, throwThe, MonadExceptOf.throw, StateT.run, StateT.lift, bind, Except.bind]

@[simp] theorem fails_require : Fails (require c e' : Tx σ ε Unit) s e ↔ c = false ∧ e' = e := by
  cases c
  · simp [require]
  · simp [require]

@[simp] theorem fails_orFail {o : Option α} :
    Fails (orFail o e' : Tx σ ε α) s e ↔ o = none ∧ e' = e := by
  cases o
  · simp [orFail]
  · simp [orFail]

@[simp] theorem fails_liftE : Fails (liftE r : Tx σ ε α) s e ↔ r = .error e := by
  cases r
  · simp [liftE]
  · simp [liftE]

@[simp] theorem fails_ite {c : Prop} [Decidable c] :
    Fails (if c then m₁ else m₂) s e ↔ (c ∧ Fails m₁ s e) ∨ (¬c ∧ Fails m₂ s e) := by
  by_cases hc : c <;> simp [hc]

/-- A loop that fails does so in an iteration, which starts in a state its
predecessors leave. -/
theorem fails_foldlM_induct {f : β → α → Tx σ ε β} {b : β} (P : List α → β → σ → Prop)
    (h : Fails (l.foldlM f b) s e) (h0 : P [] b s)
    (step : ∀ done x c t c' t', done ++ [x] <+: l → P done c t → Runs (f c x) t c' t' →
      P (done ++ [x]) c' t') :
    ∃ done x c t, done ++ [x] <+: l ∧ P done c t ∧ Fails (f c x) t e := by
  -- the processed part is generalised to a prefix of the whole list
  suffices key : ∀ (rest done : List α) (c : β) (t : σ), l = done ++ rest → P done c t →
      Fails (rest.foldlM f c) t e → ∃ done x c t, done ++ [x] <+: l ∧ P done c t ∧
        Fails (f c x) t e from key l [] b s rfl h0 h
  intro rest
  induction rest with
  | nil =>
    intro done c t _ _ hfails
    exact absurd hfails fails_pure
  | cons x rest ih =>
    intro done c t hl hP hfails
    have hpre : done ++ [x] <+: l := ⟨rest, by simp [hl]⟩
    rw [List.foldlM_cons, fails_bind] at hfails
    rcases hfails with hfails | ⟨c₁, t₁, hx, hrest⟩
    · exact ⟨done, x, c, t, hpre, hP, hfails⟩
    · exact ih (done ++ [x]) c₁ t₁ (by simp [hl]) (step done x c t c₁ t₁ hpre hP hx) hrest

theorem fails_foldlM {f : β → α → Tx σ ε β} {b : β} (P : β → σ → Prop)
    (h : Fails (l.foldlM f b) s e) (h0 : P b s)
    (step : ∀ x ∈ l, ∀ c t c' t', P c t → Runs (f c x) t c' t' → P c' t') :
    ∃ x ∈ l, ∃ c t, P c t ∧ Fails (f c x) t e := by
  obtain ⟨done, x, c, t, hpre, hP, hfails⟩ := fails_foldlM_induct (fun _ c t => P c t) h h0
    fun done x c t c' t' hpre => step x (hpre.subset (by simp)) c t c' t'
  exact ⟨x, hpre.subset (by simp), c, t, hP, hfails⟩

end Fails

theorem Runs.not_fails (h : Runs m s a s') (e : ε) : ¬ Fails m s e := by
  intro hfails
  rw [Fails, show m.run s = .ok (a, s') from h] at hfails
  cases hfails

theorem exists_runs (h : ∀ e, ¬ Fails m s e) : ∃ a s', Runs m s a s' := by
  rcases hm : m.run s with e | ⟨a, s'⟩
  · exact absurd hm (h e)
  · exact ⟨a, s', hm⟩

/-! ### Transactions -/

/-- Run a body as an atomic transaction: a failure leaves the state as it was. -/
def commit (m : Tx σ ε α) (s : σ) : Except ε α × σ :=
  match m.run s with
  | .ok (a, s') => (.ok a, s')
  | .error e => (.error e, s)

theorem commit_ok_iff : commit m s = (.ok a, s') ↔ Runs m s a s' := by
  unfold commit Runs
  rcases m.run s with e | ⟨a₁, s₁⟩ <;> simp

theorem commit_error {e : ε} (h : commit m s = (.error e, s')) : s' = s := by
  unfold commit at h
  rcases hm : m.run s with e' | ⟨a₁, s₁⟩ <;> simp [hm] at h
  exact h.2.symm

theorem commit_error_iff {e : ε} : (commit m s).1 = .error e ↔ Fails m s e := by
  unfold commit Fails
  rcases m.run s with e₁ | ⟨a₁, s₁⟩ <;> simp

/-- A body that succeeded has run to the state that was committed. -/
theorem runs_of_isOk (h : (commit m s).1.isOk = true) : ∃ a, Runs m s a (commit m s).2 := by
  rcases hm : commit m s with ⟨e | a, s'⟩
  · rw [hm] at h
    cases h
  · exact ⟨a, commit_ok_iff.1 hm⟩

theorem commit_refused (h : ∀ a s', ¬ Runs m s a s') : ∃ e, commit m s = (.error e, s) := by
  rcases hm : commit m s with ⟨e | a, s'⟩
  · obtain rfl := commit_error hm
    exact ⟨e, rfl⟩
  · exact absurd (commit_ok_iff.1 hm) (h a s')

/-- What holds of the state before a transaction, and of every state that its body
leads to, holds of the state after it. -/
theorem commit_induct {P : σ → Prop} (hsame : P s) (hruns : ∀ a s', Runs m s a s' → P s') :
    P (commit m s).2 := by
  rcases hm : commit m s with ⟨e | a, s'⟩
  · rwa [commit_error hm]
  · exact hruns a s' (commit_ok_iff.1 hm)

end Tx

end Hoorific
