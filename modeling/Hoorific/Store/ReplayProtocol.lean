/-
The idempotency store along whole histories: any number of owners begin,
finish and discard, and the cleanup runs, in any order.

Three things hold of every history (`Protocol`).  A key is claimed a second
time only after the first owner gave it up or its response expired.  A
response that is replayed is the one the owner of the current claim recorded
first, and it is replayed to requests with the fingerprint of that claim only.
A row without a response stays with its owner.  The first and the last come
from what one call can do to a row; the second is carried by `Origin`, which
ties every stored row to the events it comes from.
-/
import Hoorific.Store.Idempotency

namespace Hoorific

open List

/-! ### Coordinates -/

/-- What an idempotency key is scoped to, and the key. -/
structure Coordinates where
  tenantID : Bytes
  subjectID : Bytes
  key : Bytes
deriving DecidableEq

def IdempotencyRequest.coordinates (req : IdempotencyRequest) : Coordinates :=
  ⟨req.tenantID, req.subjectID, req.key⟩

variable {crypto : Crypto}

theorem idempotencyHash_injective (purpose : String) :
    Function.Injective (idempotencyHash crypto purpose) := by
  intro a b h
  exact append_cancel_left (crypto.digest_injective h)

/-- The row of a key. -/
def Coordinates.rowKey (crypto : Crypto) (c : Coordinates) : IdempotencyKey :=
  ⟨c.tenantID, c.subjectID, idempotencyHash crypto "key" c.key⟩

/-- Different keys have different rows. -/
theorem Coordinates.rowKey_injective : Function.Injective (Coordinates.rowKey crypto) := by
  intro a b h
  simp only [Coordinates.rowKey, IdempotencyKey.mk.injEq] at h
  obtain ⟨ht, hs, hk⟩ := h
  rcases b with ⟨_, _, _⟩
  cases ht
  cases hs
  cases idempotencyHash_injective _ hk
  rfl

variable {c : Coordinates} {req : IdempotencyRequest} {row : IdempotencyRow} {owner fp : Bytes}
  {calls : List IdempotencyCall} {now : ℤ}

theorem coordinates_of_rowKey (h : c.rowKey crypto = req.rowKey crypto) : req.coordinates = c :=
  (Coordinates.rowKey_injective h).symm

/-! ### Events -/

abbrev IdempotencyEvent := Event IdempotencyTable IdempotencyCall IdempotencyAnswer

/-- The owner claims the key with a fingerprint: `BeginIdempotency` returns `new`. -/
def Claims (c : Coordinates) (owner fingerprint : Bytes) (e : IdempotencyEvent) : Prop :=
  ∃ req now ring, e.input = .begin req now ring ∧ e.answer = .record .new none ∧
    req.coordinates = c ∧ req.ownerID = owner ∧ req.fingerprint = fingerprint

/-- The owner records a response: `FinishIdempotency` succeeds with it. -/
def Records (c : Coordinates) (owner : Bytes) (r : IdempotencyResponse) (e : IdempotencyEvent) :
    Prop :=
  ∃ req ring nonce now, e.input = .finish req (some r) ring nonce now ∧ e.answer = .done ∧
    req.coordinates = c ∧ req.ownerID = owner

/-- The owner's pending row is deleted by the owner's own `DiscardIdempotency`. -/
def Discards (crypto : Crypto) (c : Coordinates) (owner : Bytes) (e : IdempotencyEvent) : Prop :=
  ∃ req row, e.input = .discard req ∧ req.coordinates = c ∧ req.ownerID = owner ∧
    e.before.lookup (c.rowKey crypto) = some row ∧ row.ownerID = owner ∧ row.state = .pending ∧
    e.after.lookup (c.rowKey crypto) = none

/-- The owner's completed row has expired, and is deleted by the cleanup or
replaced by a new claim. -/
def Expires (crypto : Crypto) (c : Coordinates) (owner : Bytes) (e : IdempotencyEvent) : Prop :=
  ∃ row now, e.before.lookup (c.rowKey crypto) = some row ∧ row.ownerID = owner ∧
    row.state = .complete ∧ row.expiresAt ≤ now ∧
    (e.input = .cleanup now ∧ e.after.lookup (c.rowKey crypto) = none ∨
      ∃ req ring, e.input = .begin req now ring ∧ e.answer = .record .new none ∧
        req.coordinates = c)

/-- A key that sealed at an earlier call is in the ring of a later one. -/
def KeysKept (a b : IdempotencyCall) : Prop :=
  ∀ req r ring nonce now req' now' ring', a = .finish req (some r) ring nonce now →
    b = .begin req' now' ring' → ∀ id master, ring.current = some (id, master) →
    ring'.byID id = some master

/-- **The protocol**, as a property of histories. -/
structure Protocol (crypto : Crypto) (h : List IdempotencyEvent) : Prop where
  /-- between two claims of a key the first one was given up or has expired -/
  claims : ∀ h₁ e₁ h₂ e₂ h₃ c owner fp owner' fp', h = h₁ ++ e₁ :: (h₂ ++ e₂ :: h₃) →
    Claims c owner fp e₁ → Claims c owner' fp' e₂ →
    ∃ e ∈ h₂ ++ [e₂], Discards crypto c owner e ∨ Expires crypto c owner e
  /-- a replayed response is the first one recorded for the current claim,
  whose fingerprint is that of the request -/
  replays : ∀ h₀ e h' req now ring response err, h = h₀ ++ e :: h' →
    e.input = .begin req now ring → e.answer = .record (.complete response) err →
    ∃ h₁ e₁ h₂ e₂ h₃ owner r, h₀ = h₁ ++ e₁ :: (h₂ ++ e₂ :: h₃) ∧
      Claims req.coordinates owner req.fingerprint e₁ ∧
      (∀ x ∈ h₂ ++ e₂ :: h₃, ∀ o f, ¬ Claims req.coordinates o f x) ∧
      Records req.coordinates owner r e₂ ∧
      (∀ x ∈ h₂, ∀ r', ¬ Records req.coordinates owner r' x) ∧ response.Same r
  /-- a row without a response stays with its claim until its owner discards it -/
  stays : ∀ e ∈ h, ∀ c row, e.before.lookup (Coordinates.rowKey crypto c) = some row →
    row.state ≠ .complete →
    (∃ row', e.after.lookup (c.rowKey crypto) = some row' ∧ row'.ownerID = row.ownerID ∧
      row'.fingerprintHash = row.fingerprintHash ∧ (row.state = .unreplayable → row' = row)) ∨
    Discards crypto c row.ownerID e

variable {e x : IdempotencyEvent} {h : List IdempotencyEvent}

/-! ### One event -/

section

variable (he : e = event (idempotencyStep crypto) e.before e.input)
include he

theorem change_of_event (k : IdempotencyKey) :
    ClaimChange crypto e.input e.answer k (e.before.lookup k) (e.after.lookup k) := by
  rw [he]
  exact idempotencyStep_change e.before e.input k

/-- What one event does to a row: it stays with its claim, unless its owner
discards it or it has expired. -/
theorem fate_of_event (hrow : e.before.lookup (c.rowKey crypto) = some row) :
    (∃ row', e.after.lookup (c.rowKey crypto) = some row' ∧ row'.ownerID = row.ownerID ∧
      row'.fingerprintHash = row.fingerprintHash ∧ (row.state = .unreplayable → row' = row)) ∨
    Discards crypto c row.ownerID e ∨ Expires crypto c row.ownerID e := by
  have h := change_of_event he (c.rowKey crypto)
  rcases e with ⟨before, input, answer, after⟩
  generalize hold : before.lookup (c.rowKey crypto) = old at h
  generalize hnew : after.lookup (c.rowKey crypto) = new at h ⊢
  generalize hk : c.rowKey crypto = k at h
  rw [hold] at hrow
  cases h with
  | keep => exact .inl ⟨row, hrow, rfl, rfl, fun _ => rfl⟩
  | claim hexpired =>
    obtain ⟨hstate, hle⟩ := expired_iff.1 (hexpired row hrow)
    exact .inr (.inr ⟨row, _, hold.trans hrow, rfl, hstate, hle, .inr ⟨_, _, rfl, rfl,
      coordinates_of_rowKey hk⟩⟩)
  | lose hstate | forget hstate | complete hstate =>
    cases hrow
    refine .inl ⟨_, rfl, rfl, rfl, fun hlost => ?_⟩
    rw [hstate] at hlost
    cases hlost
  | free hstate howner =>
    cases hrow
    exact .inr (.inl ⟨_, _, rfl, coordinates_of_rowKey hk, howner.symm, hold, rfl, hstate, hnew⟩)
  | expire hexpired =>
    cases hrow
    obtain ⟨hstate, hle⟩ := expired_iff.1 hexpired
    exact .inr (.inr ⟨_, _, hold, rfl, hstate, hle, .inl ⟨rfl, hnew⟩⟩)

theorem Claims.spec (h : Claims c owner fp e) :
    ∃ req now ring, e.input = .begin req now ring ∧ e.answer = .record .new none ∧
      req.coordinates = c ∧ req.ownerID = owner ∧
      (∀ row, e.before.lookup (c.rowKey crypto) = some row → row.expired now = true) ∧
      e.after.lookup (c.rowKey crypto) = some (req.pendingRow crypto now) := by
  obtain ⟨req, now, ring, hin, hanswer, rfl, rfl, -⟩ := h
  have hstep := step_of_event he hin
  rw [hanswer] at hstep
  exact ⟨req, now, ring, hin, hanswer, rfl, rfl,
    (beginIdempotency_spec (runs_of_record hstep)).2.1 rfl⟩

/-- What a recorded response finds: the owner's row, complete already or
completed by it. -/
theorem Records.spec {r : IdempotencyResponse} (h : Records c owner r e) :
    ∃ row, e.before.lookup (c.rowKey crypto) = some row ∧ (row.state = .complete ∨
      ∃ row', e.after.lookup (c.rowKey crypto) = some row' ∧ row'.state = .complete) := by
  obtain ⟨req, ring, nonce, now, hin, hanswer, rfl, rfl⟩ := h
  have hstep := step_of_event he hin
  rw [hanswer] at hstep
  obtain ⟨row, hrow, -, hcases⟩ := (finishIdempotency_spec (runs_of_done hstep)).2
  rcases hcases with ⟨hstate, -⟩ | ⟨-, ⟨hnone, -⟩ | ⟨_, envelope, -, -, hnew⟩⟩
  · exact ⟨row, hrow, .inl hstate⟩
  · cases hnone
  · exact ⟨row, hrow, .inr ⟨_, hnew, rfl⟩⟩

end

/-- The table has a row of the owner. -/
def Held (crypto : Crypto) (c : Coordinates) (owner : Bytes) (t : IdempotencyTable) : Prop :=
  ∃ row, t.lookup (c.rowKey crypto) = some row ∧ row.ownerID = owner

/-- **A key is claimed again only after it was given up or has expired.** -/
theorem claims_separated {h₁ h₂ h₃ : List IdempotencyEvent} {e₁ e₂ : IdempotencyEvent}
    {owner' fp' : Bytes}
    (h : history (idempotencyStep crypto) ∅ calls = h₁ ++ e₁ :: (h₂ ++ e₂ :: h₃))
    (hfirst : Claims c owner fp e₁) (hsecond : Claims c owner' fp' e₂) :
    ∃ e ∈ h₂ ++ [e₂], Discards crypto c owner e ∨ Expires crypto c owner e := by
  have hmem : ∀ e ∈ e₁ :: (h₂ ++ e₂ :: h₃), e ∈ history (idempotencyStep crypto) ∅ calls :=
    fun e he => h ▸ mem_append_right h₁ he
  have he₁ := eq_event_of_mem (hmem e₁ mem_cons_self)
  have he₂ := eq_event_of_mem (hmem e₂ (by simp))
  obtain ⟨req, now, _, -, -, -, howner, -, hafter⟩ := hfirst.spec he₁
  have hheld : Held crypto c owner e₁.after := ⟨_, hafter, howner⟩
  obtain ⟨_, l₂, -, -, -, hrest⟩ := history_split h
  obtain ⟨m₁, _, -, rfl, hbefore, -⟩ := history_split hrest.symm
  by_cases hstill : Held crypto c owner e₂.before
  · -- the second claim finds the first owner's row: it has expired
    obtain ⟨row, hrow, rfl⟩ := hstill
    obtain ⟨req₂, now₂, ring₂, hin, hanswer, hcoord, -, hexpired, -⟩ := hsecond.spec he₂
    obtain ⟨hstate, hle⟩ := expired_iff.1 (hexpired row hrow)
    exact ⟨e₂, by simp, .inr ⟨row, now₂, hrow, rfl, hstate, hle, .inr ⟨req₂, ring₂, hin, hanswer, hcoord⟩⟩⟩
  · -- the row was lost on the way
    rw [hbefore] at hstill
    obtain ⟨e, he, ⟨row, hrow, rfl⟩, hlost⟩ := exists_drop hheld hstill
    refine ⟨e, mem_append_left _ he, (fate_of_event (eq_event_of_mem he) hrow).resolve_left ?_⟩
    rintro ⟨row', hrow', howner, -⟩
    exact hlost ⟨row', hrow', howner⟩

/-! ### Where a stored row comes from -/

/-- The event that gave a row its response. -/
def Completes (crypto : Crypto) (c : Coordinates) (row : IdempotencyRow) (r : IdempotencyResponse)
    (e : IdempotencyEvent) : Prop :=
  ∃ req ring nonce now, e.input = .finish req (some r) ring nonce now ∧ e.answer = .done ∧
    req.coordinates = c ∧ req.ownerID = row.ownerID ∧
    row.fingerprintHash = req.fingerprintHash crypto ∧
    sealResponse crypto req ring nonce r = .ok row.envelope

/-- What has happened since the claim of a row. -/
structure Since (crypto : Crypto) (c : Coordinates) (row : IdempotencyRow)
    (h : List IdempotencyEvent) : Prop where
  current : ∀ x ∈ h, ∀ o f, ¬ Claims c o f x
  pending : row.state = .pending → ∀ x ∈ h, ∀ r, ¬ Records c row.ownerID r x
  complete : row.state = .complete → ∃ h₁ e h₂ r, h = h₁ ++ e :: h₂ ∧ Completes crypto c row r e ∧
    ∀ x ∈ h₁, ∀ r', ¬ Records c row.ownerID r' x

/-- The row was written for a claim of the history, and reflects what has
happened since. -/
def Origin (crypto : Crypto) (h : List IdempotencyEvent) (c : Coordinates) (row : IdempotencyRow) :
    Prop :=
  ∃ h₁ e h₂ fp, h = h₁ ++ e :: h₂ ∧ Claims c row.ownerID fp e ∧
    row.fingerprintHash = idempotencyHash crypto "fingerprint" fp ∧ Since crypto c row h₂

/-- A row of the same claim, after one more event. -/
theorem Origin.snoc {row' : IdempotencyRow} (ho : Origin crypto h c row)
    (howner : row'.ownerID = row.ownerID) (hfp : row'.fingerprintHash = row.fingerprintHash)
    (hsince : ∀ h₂, Since crypto c row h₂ → Since crypto c row' (h₂ ++ [x])) :
    Origin crypto (h ++ [x]) c row' := by
  obtain ⟨h₁, e, h₂, fp, rfl, hclaim, hhash, hs⟩ := ho
  refine ⟨h₁, e, h₂ ++ [x], fp, ?_, howner ▸ hclaim, hfp.trans hhash, hsince h₂ hs⟩
  rw [append_assoc, cons_append]

theorem Since.keep (hx : x = event (idempotencyStep crypto) x.before x.input)
    (hbefore : x.before.lookup (c.rowKey crypto) = some row)
    (hafter : x.after.lookup (c.rowKey crypto) = some row) (hs : Since crypto c row h) :
    Since crypto c row (h ++ [x]) where
  current := by
    refine forall_mem_append.2 ⟨hs.current, forall_mem_singleton.2 fun o f hclaim => ?_⟩
    -- a claim would have found an expired response and left a pending row
    obtain ⟨req, now, _, -, -, -, -, hexpired, hnew⟩ := hclaim.spec hx
    have hstate := (expired_iff.1 (hexpired row hbefore)).1
    rw [Option.some.inj (hafter.symm.trans hnew)] at hstate
    cases hstate
  pending := by
    intro hstate
    refine forall_mem_append.2 ⟨hs.pending hstate, forall_mem_singleton.2 fun r hrec => ?_⟩
    -- a recorded response would have completed the row
    obtain ⟨row', hrow', hcomplete | ⟨row'', hrow'', hcomplete⟩⟩ := hrec.spec hx
    · rw [← Option.some.inj (hbefore.symm.trans hrow'), hstate] at hcomplete
      cases hcomplete
    · rw [← Option.some.inj (hafter.symm.trans hrow''), hstate] at hcomplete
      cases hcomplete
  complete := by
    intro hstate
    obtain ⟨h₁, e, h₂, r, rfl, hcompletes, hfirst⟩ := hs.complete hstate
    exact ⟨h₁, e, h₂ ++ [x], r, by rw [append_assoc, cons_append], hcompletes, hfirst⟩

theorem Since.tombstone (hx : ∀ o f, ¬ Claims c o f x) (hs : Since crypto c row h) :
    Since crypto c (row.tombstone now) (h ++ [x]) where
  current := forall_mem_append.2 ⟨hs.current, forall_mem_singleton.2 hx⟩
  pending := nofun
  complete := nofun

/-- **Every row comes from its claim**, one more event. -/
theorem Origin.step (hx : x = event (idempotencyStep crypto) x.before x.input)
    (hinv : ∀ c row, x.before.lookup (Coordinates.rowKey crypto c) = some row →
      Origin crypto h c row) (c : Coordinates) (row : IdempotencyRow)
    (hrow : x.after.lookup (c.rowKey crypto) = some row) : Origin crypto (h ++ [x]) c row := by
  have hchange := change_of_event hx (c.rowKey crypto)
  rw [hrow] at hchange
  generalize hold : x.before.lookup (c.rowKey crypto) = old at hchange
  generalize hcall : x.input = call at hchange
  generalize hanswer : x.answer = answer at hchange
  generalize hk : c.rowKey crypto = k at hchange
  generalize hnew : some row = new at hchange
  cases hchange with
  | keep =>
    subst hnew
    exact (hinv c row hold).snoc rfl rfl fun h₂ hs => hs.keep hx hold hrow
  | @claim req now ring _ hexpired =>
    cases hnew
    have hc := coordinates_of_rowKey hk
    exact ⟨h, x, [], req.fingerprint, rfl, ⟨req, now, ring, hcall, hanswer, hc, rfl, rfl⟩, rfl,
      fun _ hy => (by cases hy), fun _ _ hy => (by cases hy), fun hstate => by cases hstate⟩
  | lose hstate =>
    cases hnew
    refine (hinv c _ hold).snoc rfl rfl fun h₂ hs => hs.tombstone fun o f hclaim => ?_
    obtain ⟨_, _, _, -, hnew', -⟩ := hclaim
    rw [hanswer] at hnew'
    cases hnew'
  | free | expire => cases hnew
  | forget hstate =>
    cases hnew
    refine (hinv c _ hold).snoc rfl rfl fun h₂ hs => hs.tombstone fun o f hclaim => ?_
    obtain ⟨_, _, _, hbegin, -⟩ := hclaim
    rw [hcall] at hbegin
    cases hbegin
  | complete hstate howner hfp hseal =>
    cases hnew
    have hc := coordinates_of_rowKey hk
    refine (hinv c _ hold).snoc rfl rfl fun h₂ hs => ⟨?_, nofun, fun _ => ?_⟩
    · refine forall_mem_append.2 ⟨hs.current, forall_mem_singleton.2 fun o f hclaim => ?_⟩
      obtain ⟨_, _, _, hbegin, -⟩ := hclaim
      rw [hcall] at hbegin
      cases hbegin
    · -- the row was pending, so nothing had been recorded for it
      exact ⟨h₂, x, [], _, rfl, ⟨_, _, _, _, hcall, hanswer, hc, howner.symm, hfp, hseal⟩,
        hs.pending hstate⟩

theorem origin_of_history (calls : List IdempotencyCall) :
    ∀ c row, (final (idempotencyStep crypto) ∅ calls).lookup (Coordinates.rowKey crypto c) = some row →
      Origin crypto (history (idempotencyStep crypto) ∅ calls) c row :=
  history_induct (P := fun h t => ∀ c row, t.lookup (Coordinates.rowKey crypto c) = some row →
    Origin crypto h c row) (fun _ _ h => by cases h) calls
    fun l i _ _ hinv => Origin.step (x := event _ (final _ ∅ l) i) rfl hinv

/-! ### The protocol -/

/-- The additional data depends on the key and the fingerprint's hash only. -/
theorem aad_eq {req' : IdempotencyRequest} (hc : req.coordinates = req'.coordinates)
    (hfp : req.fingerprintHash crypto = req'.fingerprintHash crypto) :
    req.aad crypto = req'.aad crypto := by
  simp only [IdempotencyRequest.coordinates, Coordinates.mk.injEq] at hc
  obtain ⟨ht, hs, hk⟩ := hc
  rw [IdempotencyRequest.aad, IdempotencyRequest.aad, ht, hs, hk, hfp]

/-- **A replayed response is the first one recorded for the current claim.** -/
theorem replay_origin (hkeys : calls.Pairwise KeysKept) {h₀ h' : List IdempotencyEvent}
    {ring : Keyring} {response : IdempotencyResponse} {err : Option IdempotencyError}
    (h : history (idempotencyStep crypto) ∅ calls = h₀ ++ e :: h')
    (hin : e.input = .begin req now ring) (hanswer : e.answer = .record (.complete response) err) :
    ∃ h₁ e₁ h₂ e₂ h₃ owner r, h₀ = h₁ ++ e₁ :: (h₂ ++ e₂ :: h₃) ∧
      Claims req.coordinates owner req.fingerprint e₁ ∧
      (∀ x ∈ h₂ ++ e₂ :: h₃, ∀ o f, ¬ Claims req.coordinates o f x) ∧
      Records req.coordinates owner r e₂ ∧
      (∀ x ∈ h₂, ∀ r', ¬ Records req.coordinates owner r' x) ∧ response.Same r := by
  have he := eq_event_of_mem (h ▸ mem_append_right h₀ mem_cons_self :
    e ∈ history (idempotencyStep crypto) ∅ calls)
  have hstep := step_of_event he hin
  rw [hanswer] at hstep
  obtain ⟨-, row, hrow, hstate, hfp, hreplay⟩ :=
    (beginIdempotency_spec (runs_of_record hstep)).2.2 response rfl
  obtain ⟨l₁, l₂, rfl, rfl, hbefore, -⟩ := history_split h
  rw [hbefore] at hrow
  obtain ⟨h₁, e₁, h₂, fp, hh₀, hclaim, hhash, hsince⟩ := origin_of_history l₁ req.coordinates row hrow
  obtain ⟨a, e₂, b, r, rfl, hcompletes, hfirst⟩ := hsince.complete hstate
  obtain ⟨req₂, ring₂, nonce, now₂, hin₂, hdone, hcoord, howner, hfp₂, hseal⟩ := hcompletes
  -- the key that sealed the response is in the ring of the request
  have hmem : e₂.input ∈ l₁ := by
    have hinputs : (history (idempotencyStep crypto) ∅ l₁).map Event.input = l₁ := history_inputs
    rw [← hinputs, hh₀]
    exact mem_map_of_mem (by simp)
  have hkept := (pairwise_append.1 hkeys).2.2 _ hmem _ mem_cons_self
  rw [hin₂, hin] at hkept
  obtain ⟨r', hr', hsame⟩ := replay_of_seal hseal
    (aad_eq hcoord.symm (hfp.symm.trans hfp₂)) (hkept _ _ _ _ _ _ _ _ rfl rfl)
  cases hreplay.symm.trans hr'
  obtain rfl : fp = req.fingerprint := idempotencyHash_injective _ (hhash.symm.trans hfp)
  exact ⟨h₁, e₁, a, e₂, b, row.ownerID, r, hh₀, hclaim, hsince.current,
    ⟨req₂, ring₂, nonce, now₂, hin₂, hdone, hcoord, howner⟩, hfirst, hsame⟩

/-- **The idempotency store keeps its protocol**: in every history that starts
with an empty table, whatever the owners do and in whatever order, as long
as no key that has sealed a response leaves the ring. -/
theorem idempotency_protocol (crypto : Crypto) (calls : List IdempotencyCall)
    (hkeys : calls.Pairwise KeysKept) :
    Protocol crypto (history (idempotencyStep crypto) ∅ calls) where
  claims _ _ _ _ _ _ _ _ _ _ h hfirst hsecond := claims_separated h hfirst hsecond
  replays _ _ _ _ _ _ _ _ h hin hanswer := replay_origin hkeys h hin hanswer
  stays _ he _ _ hrow hopen := by
    refine (fate_of_event (eq_event_of_mem he) hrow).imp_right fun h => h.resolve_right ?_
    -- only a response expires
    rintro ⟨row, _, hrow', -, hstate, -⟩
    cases hrow.symm.trans hrow'
    exact hopen hstate

/-! ### A run -/

/-- A ring with one key. -/
def oneKey : Keyring where
  current := some (Bytes.ascii "k1", Bytes.ascii "master")
  byID id := if id = Bytes.ascii "k1" then some (Bytes.ascii "master") else none

/-- A request of one of the owners. -/
def ownerRequest (owner : String) : IdempotencyRequest where
  tenantID := Bytes.ascii "acme"
  subjectID := Bytes.ascii "alice"
  key := Bytes.ascii "order-1"
  fingerprint := Bytes.ascii "POST /v1/chat"
  ownerID := Bytes.ascii owner
  expiresAt := Time.ofUnix 1000

def createdResponse : IdempotencyResponse where
  status := 201
  body := Bytes.ascii "ok"

/-- The first owner claims and records, the second is given the response. -/
def replayCalls : List IdempotencyCall :=
  [.begin (ownerRequest "one") 100 oneKey,
    .finish (ownerRequest "one") (some createdResponse) oneKey (some (Vector.replicate 12 7)) 110,
    .begin (ownerRequest "two") 120 oneKey]

theorem keysKept_oneKey
    (h : ∀ call ∈ calls, (∀ req r ring nonce now, call = .finish req r ring nonce now → ring = oneKey) ∧
      ∀ req now ring, call = .begin req now ring → ring = oneKey) :
    calls.Pairwise KeysKept := by
  refine pairwise_of_forall_mem_list fun a ha b hb => ?_
  intro req r ring nonce now req' now' ring' hfinish hbegin id master hcurrent
  obtain rfl := (h a ha).1 _ _ _ _ _ hfinish
  obtain rfl := (h b hb).2 _ _ _ hbegin
  cases hcurrent
  rfl

/-- The status and the body of a replayed response. -/
def IdempotencyAnswer.replayed : IdempotencyAnswer → Option (ℤ × Bytes)
  | .record (.complete response) _ => some (response.status, response.body)
  | _ => none

/-- The protocol at work: the second request is answered with the recorded response. -/
theorem idempotency_protocol_replay :
    ((history (idempotencyStep Crypto.transparent) ∅ replayCalls).map fun e => e.answer.replayed) =
      [none, none, some (201, Bytes.ascii "ok")] ∧
    Protocol Crypto.transparent (history (idempotencyStep Crypto.transparent) ∅ replayCalls) := by
  refine ⟨by decide +kernel, idempotency_protocol Crypto.transparent replayCalls (keysKept_oneKey ?_)⟩
  simp +contextual [replayCalls, eq_comm]

end Hoorific
