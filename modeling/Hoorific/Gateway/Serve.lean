/-
Serving a request (`Gateway.ServeHTTP`) from the idempotency check on.  The
loop makes at most two attempts, on the first two candidates; a second one
is made after a rejection with 429 only, on a target that a fresh snapshot
still has.  Once in a request, an attempt that was refused because the
configuration has changed is planned again, without being counted.

`Calls` says what attempts the loop makes, from the candidates and what each
round is answered (`attemptLoop_calls`: the bound on the rounds is never
reached), and the results about whole requests are read off it: at most one
attempt of a request ends
in another state than `not_executed`; when a key is given back although
the request was sent; and when the response of a request whose outcome is
not known is stored for replay.  The latter two need an attempt that ends
without a mark, after one that has left a mark behind.
-/
import Hoorific.Gateway.Marks
import Hoorific.Gateway.Finalize

namespace Hoorific.Gateway

open List

/-! ### The loop -/

/-- A candidate target. -/
structure Selected where
  connectionID : String
  modelID : String
deriving DecidableEq

/-- What the environment answers in one round of the loop. -/
structure Round where
  /-- the targets of a fresh snapshot, asked for before a second attempt -/
  fresh : Except StoreError (List Selected) := .ok []
  call : AttemptEnv
  /-- the targets of a refreshed snapshot, asked for after a stale plan -/
  replan : Except StoreError (List Selected) := .ok []

/-- What is reported if no attempt was made. -/
def noTarget : AttemptError := .plain (failure "model_not_found" 404 "no compatible target")

/-- The target of the second attempt is still there. -/
def checkFresh (attempt : Nat) (round : Round) (t : Selected) : Except StoreError Unit :=
  if attempt = 0 then .ok ()
  else do
    let targets ← round.fresh
    Check.require (targets.contains t)
      (failure "configuration_stale" 409 "fallback target is no longer eligible")

/-- The attempts that were made, and the error that is written, if any. -/
abbrev Outcomes := List AttemptEnv × Option AttemptError

section Loop

variable (p : Principal) (native : Bool)

/-- One round of the loop of `ServeHTTP`; `rest` is what follows, with the
number of the attempt, whether there was a replan, the candidates and the
last error. -/
def attemptRound (rest : ℕ → Bool → List Selected → Option AttemptError → Outcomes)
    (k : ℕ) (replanned : Bool) (candidates : List Selected) (last : Option AttemptError)
    (round : Round) : Outcomes :=
  match if k < 2 then candidates[k]? else none with
  | none => ([], some (last.getD noTarget))
  | some t => match checkFresh k round t with
    | .error e => ([], some (.plain e))
    | .ok () =>
      let a := attempt p native round.call
      if a.err.any AttemptError.isPreIntentStale && !replanned then
        match round.replan with
        | .error e => ([round.call], some (.plain e))
        | .ok candidates =>
          let (calls, err) := rest k true candidates last
          (round.call :: calls, err)
      else if a.err.isSome && a.retry then
        let (calls, err) := rest (k + 1) replanned candidates a.err
        (round.call :: calls, err)
      else ([round.call], a.err)

/-- The loop, for at most `n` rounds; `i` counts them. -/
def attemptLoop (rounds : ℕ → Round) : (n i k : ℕ) → (replanned : Bool) →
    (candidates : List Selected) → (last : Option AttemptError) → Outcomes
  | 0, _, _, _, _, last => ([], some (last.getD noTarget))
  | n + 1, i, k, replanned, candidates, last =>
    attemptRound p native (attemptLoop rounds n (i + 1)) k replanned candidates last (rounds i)

/-- The rounds there are at most: an attempt for each number, and a replan. -/
def roundsLeft (k : ℕ) (replanned : Bool) : ℕ := 2 - k + if replanned then 0 else 1

variable {p native} {rest : ℕ → Bool → List Selected → Option AttemptError → Outcomes} {k : ℕ}
  {replanned : Bool} {calls : List AttemptEnv}

/-! ### The attempts of a request -/

/-- Round `i` makes attempt `k` on one of the candidates. -/
def Makes (rounds : ℕ → Round) (i k : ℕ) (candidates : List Selected) : Prop :=
  k < 2 ∧ ∃ t, candidates[k]? = some t ∧ checkFresh k (rounds i) t = .ok ()

/-- The attempts the loop makes, from round `i` and attempt `k` on: a stale plan
is planned again if it is the first and there are new candidates, a rejection
is followed by the next attempt, and any other attempt is the last. -/
inductive Calls (p : Principal) (native : Bool) (rounds : ℕ → Round) :
    ℕ → ℕ → Bool → List Selected → List AttemptEnv → Prop where
  | stop {i k : ℕ} {replanned : Bool} {c : List Selected} (h : ¬ Makes rounds i k c) :
      Calls p native rounds i k replanned c []
  | last {i k : ℕ} {replanned : Bool} {c : List Selected} (h : Makes rounds i k c)
      (hstale : (rounds i).call.stale = true → replanned = false → ∃ e, (rounds i).replan = .error e)
      (htooMany : (rounds i).call.tooMany p native = false) :
      Calls p native rounds i k replanned c [(rounds i).call]
  | replan {i k : ℕ} {c c' : List Selected} {rest : List AttemptEnv} (h : Makes rounds i k c)
      (hstale : (rounds i).call.stale = true) (hreplan : (rounds i).replan = .ok c')
      (hrest : Calls p native rounds (i + 1) k true c' rest) :
      Calls p native rounds i k false c ((rounds i).call :: rest)
  | retry {i k : ℕ} {replanned : Bool} {c : List Selected} {rest : List AttemptEnv}
      (h : Makes rounds i k c) (htooMany : (rounds i).call.tooMany p native = true)
      (hrest : Calls p native rounds (i + 1) (k + 1) replanned c rest) :
      Calls p native rounds i k replanned c ((rounds i).call :: rest)

variable {rounds : ℕ → Round} {i : ℕ} {candidates : List Selected} {env : AttemptEnv}

theorem tooMany_of_stale (hstale : env.stale = true) : env.tooMany p native = false := by
  rw [Bool.eq_false_iff]
  intro htooMany
  have hmarks := ((attempt_reports p native env).refused hstale).1
  rw [((attempt_reports p native env).tooMany htooMany).1] at hmarks
  cases hmarks

/-- An attempt without a mark was neither stale nor rejected with 429. -/
theorem last_of_quiet (h : (attempt p native env).marks = []) :
    env.stale = false ∧ env.tooMany p native = false := by
  have hreports := attempt_reports p native env
  constructor <;> rw [Bool.eq_false_iff] <;> intro hnot
  · rw [(hreports.refused hnot).1] at h
    cases h
  · rw [(hreports.tooMany hnot).1] at h
    cases h

theorem attemptRound_calls (last : Option AttemptError)
    (hreplan : k < 2 → replanned = false → ∀ c,
      Calls p native rounds (i + 1) k true c (rest k true c last).1)
    (hretry : k < 2 → ∀ l,
      Calls p native rounds (i + 1) (k + 1) replanned candidates (rest (k + 1) replanned candidates l).1) :
    Calls p native rounds i k replanned candidates
      (attemptRound p native rest k replanned candidates last (rounds i)).1 := by
  have hreports := attempt_reports p native (rounds i).call
  unfold attemptRound
  by_cases hk : k < 2
  · simp only [hk, if_true]
    split
    next hnone => exact .stop fun ⟨_, t, ht, _⟩ => by rw [hnone] at ht; cases ht
    next t ht =>
    split
    next e he =>
      refine .stop ?_
      rintro ⟨-, t', ht', hok⟩
      cases ht.symm.trans ht'
      rw [he] at hok
      cases hok
    next hok =>
    have hmakes : Makes rounds i k candidates := ⟨hk, t, ht, hok⟩
    rw [hreports.stale, hreports.retry]
    split
    next h =>
      simp only [Bool.and_eq_true, Bool.not_eq_true'] at h
      obtain ⟨hstale, rfl⟩ := h
      split
      next e he => exact .last hmakes (fun _ _ => ⟨e, he⟩) (tooMany_of_stale hstale)
      next c hc => exact .replan hmakes hstale hc (hreplan hk rfl c)
    next hfresh =>
      split
      next h => exact .retry hmakes (Bool.and_eq_true_iff.1 h).2 (hretry hk _)
      next h =>
        refine .last hmakes (fun hstale hnot => absurd ?_ hfresh) (Bool.eq_false_iff.2 fun hmany => h ?_)
        · simp [hstale, hnot]
        · simp [hmany, (hreports.tooMany hmany).2.2.2]
  · simp only [hk, if_false]
    exact .stop fun h => hk h.1

/-- **The loop ends by itself**: with a round for each attempt and for a replan. -/
theorem attemptLoop_calls {n : ℕ} (i : ℕ) (candidates : List Selected) (last : Option AttemptError)
    (hn : roundsLeft k replanned ≤ n) :
    Calls p native rounds i k replanned candidates
      (attemptLoop p native rounds n i k replanned candidates last).1 := by
  induction n generalizing i k replanned candidates last with
  | zero =>
    refine .stop fun h => ?_
    have := h.1
    unfold roundsLeft at hn
    omega
  | succ n ih =>
    refine attemptRound_calls last ?_ ?_
    · rintro hk rfl c
      exact ih (i + 1) c last (by simp [roundsLeft] at hn ⊢; omega)
    · intro hk l
      exact ih (i + 1) candidates l (by unfold roundsLeft at hn ⊢; omega)

variable (hcalls : Calls p native rounds i k replanned candidates calls)

section
include hcalls

/-- Every attempt that is followed by another was refused as stale or rejected
with 429. -/
theorem Calls.pairwise :
    calls.Pairwise fun a _ => a.stale = true ∨ a.tooMany p native = true := by
  induction hcalls with
  | stop => exact List.Pairwise.nil
  | last => exact pairwise_singleton _ _
  | replan _ hstale _ _ ih => exact pairwise_cons.2 ⟨fun _ _ => .inl hstale, ih⟩
  | retry _ htooMany _ ih => exact pairwise_cons.2 ⟨fun _ _ => .inr htooMany, ih⟩

/-- At most two of the attempts are sent. -/
theorem Calls.length_sent : (calls.filter fun env => (env.sent p).isSome).length ≤ 2 - k := by
  induction hcalls with
  | stop => exact Nat.zero_le _
  | @last i _ _ _ hmakes =>
    have hlength := length_filter_le (fun env => (env.sent p).isSome) [(rounds i).call]
    rw [length_singleton] at hlength
    have := hmakes.1
    omega
  | @replan i _ _ _ _ _ hstale _ _ ih =>
    -- a stale plan is not sent
    have hreports := attempt_reports p native (rounds i).call
    have hnot : ((rounds i).call.sent p).isSome = false := by
      rw [← hreports.dispatched]
      exact (hreports.refused hstale).2
    rw [filter_cons_of_neg (by simp [hnot])]
    exact ih
  | @retry i _ _ _ rest hmakes _ _ ih =>
    have hlength : (List.filter (fun env => (env.sent p).isSome) ((rounds i).call :: rest)).length ≤
        (rest.filter fun env => (env.sent p).isSome).length + 1 := by
      rw [filter_cons]
      split
      · exact le_refl _
      · exact Nat.le_succ _
    have := hmakes.1
    omega

/-- What follows an attempt. -/
theorem Calls.next (hmakes : Makes rounds i k candidates) :
    ∃ rest, calls = (rounds i).call :: rest ∧
      ((rounds i).call.stale = true → replanned = false → ∀ c, (rounds i).replan = .ok c →
        Calls p native rounds (i + 1) k true c rest) ∧
      ((rounds i).call.tooMany p native = true →
        Calls p native rounds (i + 1) (k + 1) replanned candidates rest) ∧
      ((attempt p native (rounds i).call).marks = [] → rest = []) := by
  cases hcalls with
  | stop h => exact absurd hmakes h
  | last _ herror htooMany =>
    refine ⟨[], rfl, fun hstale hfirst c hc => ?_, fun h => ?_, fun _ => rfl⟩
    · obtain ⟨e, he⟩ := herror hstale hfirst
      rw [hc] at he
      cases he
    · rw [htooMany] at h
      cases h
  | replan _ hstale hc hrest =>
    refine ⟨_, rfl, fun _ _ c hc' => ?_, fun h => ?_, fun hquiet => ?_⟩
    · cases hc.symm.trans hc'
      exact hrest
    · rw [tooMany_of_stale hstale] at h
      cases h
    · rw [(last_of_quiet hquiet).1] at hstale
      cases hstale
  | retry _ htooMany hrest =>
    refine ⟨_, rfl, fun hstale => ?_, fun _ => hrest, fun hquiet => ?_⟩
    · rw [tooMany_of_stale hstale] at htooMany
      cases htooMany
    · rw [(last_of_quiet hquiet).2] at htooMany
      cases htooMany

end

end Loop

/-! ### The request -/

/-- What `beginIdempotency` says. -/
inductive Claimed where
  | failed (err : StoreError)
  | replay (response : IdempotencyResponse)
  | started
deriving DecidableEq

/-- A request with an idempotency key, with all that its environment answers
while it is served. -/
structure Request where
  principal : Principal
  native : Bool
  claimed : Claimed := .started
  /-- a native continuation makes one attempt -/
  continuation : Option AttemptEnv := none
  candidates : List Selected := []
  rounds : ℕ → Round
  /-- the store can give a key back -/
  discarder : Bool := true
  /-- the calls made on the captured response -/
  writes : List WriterCall := []

variable (r : Request)

/-- The attempts of a request that may be served. -/
def Request.attempts : Outcomes :=
  match r.continuation with
  | some env => ([env], (attempt r.principal r.native env).err)
  | none => attemptLoop r.principal r.native r.rounds (roundsLeft 0 false) 0 0 false r.candidates none

/-- What is left of a request: the attempts it has made, and what was done
with its key. -/
structure Served where
  calls : List AttemptEnv := []
  finish : Option Finish := none

/-- `ServeHTTP`, from the idempotency check on. -/
def serveHTTP : Served :=
  match r.claimed with
  | .failed _ | .replay _ => {}
  | .started =>
    let calls := r.attempts.1
    let marks := calls.flatMap fun env => (attempt r.principal r.native env).marks
    { calls := calls
      finish := some (finish r.discarder (Phase.unset.marks marks) r.writes) }

variable {r} in
theorem serveHTTP_loop (hstarted : r.claimed = .started) (hnone : r.continuation = none) :
    Calls r.principal r.native r.rounds 0 0 false r.candidates (serveHTTP r).calls := by
  simp only [serveHTTP, hstarted, Request.attempts, hnone]
  exact attemptLoop_calls 0 r.candidates none (le_refl _)

/-- The attempts of a request are those of the loop; a continuation makes one. -/
theorem serveHTTP_calls :
    r.claimed = .started ∧ r.continuation = none ∨
      ∃ env : Option AttemptEnv, (serveHTTP r).calls = env.toList := by
  unfold serveHTTP Request.attempts
  cases r.claimed with
  | failed | replay => exact .inr ⟨none, rfl⟩
  | started =>
    cases r.continuation with
    | some env => exact .inr ⟨some env, rfl⟩
    | none => exact .inl ⟨rfl, rfl⟩

/-- Two attempts are made in the loop only. -/
theorem serveHTTP_pairwise : (serveHTTP r).calls.Pairwise fun a _ =>
    a.stale = true ∨ a.tooMany r.principal r.native = true := by
  rcases serveHTTP_calls r with ⟨hstarted, hnone⟩ | ⟨env, hone⟩
  · exact (serveHTTP_loop hstarted hnone).pairwise
  · rw [hone]
    cases env
    · exact List.Pairwise.nil
    · exact pairwise_singleton _ _

theorem serveHTTP_length_sent :
    ((serveHTTP r).calls.filter fun env => (env.sent r.principal).isSome).length ≤ 2 := by
  rcases serveHTTP_calls r with ⟨hstarted, hnone⟩ | ⟨env, hone⟩
  · exact (serveHTTP_loop hstarted hnone).length_sent
  · refine (length_filter_le _ _).trans ?_
    rw [hone]
    cases env <;> simp

variable {env : AttemptEnv} {α : Type*}

/-- The highest of the marks of these attempts. -/
def Request.marks (calls : List AttemptEnv) : Phase :=
  Phase.unset.marks (calls.flatMap fun env => (attempt r.principal r.native env).marks)

/-- A request that has made an attempt is finished with the highest of all
marks. -/
theorem serveHTTP_finish {r : Request} (h : env ∈ (serveHTTP r).calls) :
    (serveHTTP r).finish =
      some (finish r.discarder (r.marks (serveHTTP r).calls) r.writes) := by
  unfold serveHTTP at h ⊢
  cases hc : r.claimed with
  | failed | replay =>
    rw [hc] at h
    cases h
  | started => rfl

/-! ### At most one execution -/

/-- If only the last of a list can be as `f` says, at most one is. -/
theorem length_filter_le_one {f : α → Bool} {l : List α} (h : l.Pairwise fun a _ => f a = false) :
    (l.filter f).length ≤ 1 := by
  induction l with
  | nil => exact Nat.zero_le _
  | cons a l ih =>
    obtain ⟨hhead, htail⟩ := pairwise_cons.1 h
    rcases l with - | ⟨b, l⟩
    · exact length_filter_le f [a]
    · rw [filter_cons_of_neg (by simp [hhead b mem_cons_self])]
      exact ih htail

/-- An attempt is finalized in another state than `not_executed`. -/
def Attempted.executed (a : Attempted) : Bool :=
  a.finalizes.any fun o => o.state != some .notExecuted

/-- What was finalized as `not_executed` is stored so. -/
theorem finalizeAttempt_notExecuted {o : AttemptOutcome} {c v : ℤ} {s s' : Store} {u : Unit}
    (hs : WellFormed s) (h : Tx.Runs (finalizeAttempt o c v) s u s')
    (ho : o.state = some .notExecuted) :
    ∃ row, s'.attempts.lookup ⟨o.tenantID, o.attemptID⟩ = some row ∧ row.state = .notExecuted := by
  have hreq : o.requested = .notExecuted := by
    rw [AttemptOutcome.requested, ho]
    rfl
  obtain ⟨-, row, hrow, -, hdone, -⟩ := finalizeAttempt_leaves hs h
  have hnot : ¬ Demotes s o := by
    rintro ⟨hsettled, -⟩
    rw [hreq] at hsettled
    cases hsettled
  exact ⟨row, hrow, (finalizable_eq (hdone hnot)).trans hreq⟩

/-- An attempt that was refused as stale or rejected with 429 has not executed. -/
theorem attempt_not_executed {p : Principal} {native : Bool}
    (h : env.stale = true ∨ env.tooMany p native = true) :
    (attempt p native env).executed = false := by
  have hreports := attempt_reports p native env
  have hall : ∀ o ∈ (attempt p native env).finalizes, o.state = some .notExecuted := by
    rcases h with hstale | htooMany
    · exact (hreports.unsent (hreports.refused hstale).2).2.1
    intro o ho
    obtain ⟨-, -, hstates, -⟩ := hreports.tooMany htooMany
    have hmem := mem_map_of_mem (f := AttemptOutcome.state) ho
    rw [hstates] at hmem
    exact mem_singleton.1 hmem
  rw [Attempted.executed, any_eq_false]
  intro o ho
  simp [hall o ho]

/-- **At most one execution for a request**: at most two attempts are sent, the
second after the first was portable, answered with 429 and finalized as
`not_executed`; so at most one attempt is finalized in another state, and
what is finalized as `not_executed` is stored so. -/
theorem dispatch_at_most_twice (r : Request) :
    (((serveHTTP r).calls.map (attempt r.principal r.native)).filter
        Attempted.dispatched).length ≤ 2 ∧
    ((serveHTTP r).calls.map (attempt r.principal r.native)).Pairwise (fun a b =>
      a.dispatched = true → b.dispatched = true → r.native = false ∧
        a.dispatch = some (.http (some 429)) ∧
        a.finalizes.map AttemptOutcome.state = [some .notExecuted]) ∧
    (((serveHTTP r).calls.map (attempt r.principal r.native)).filter
        Attempted.executed).length ≤ 1 ∧
    ∀ (o : AttemptOutcome) (c v : ℤ) (s s' : Store), WellFormed s →
      Tx.Runs (finalizeAttempt o c v) s () s' → o.state = some .notExecuted →
      ∃ row, s'.attempts.lookup ⟨o.tenantID, o.attemptID⟩ = some row ∧
        row.state = .notExecuted := by
  refine ⟨?_, ?_, ?_, fun o c v s s' hs h ho => finalizeAttempt_notExecuted hs h ho⟩
  · rw [filter_map, length_map]
    refine le_of_eq_of_le (congrArg List.length (filter_congr fun env _ => ?_))
      (serveHTTP_length_sent r)
    exact (attempt_reports r.principal r.native env).dispatched
  · rw [pairwise_map]
    refine (serveHTTP_pairwise r).imp ?_
    intro a b h hsent _
    have hreports := attempt_reports r.principal r.native a
    rcases h with hstale | htooMany
    · rw [(hreports.refused hstale).2] at hsent
      cases hsent
    · obtain ⟨-, hdispatch, hstates, -⟩ := hreports.tooMany htooMany
      exact ⟨AttemptEnv.native_of_tooMany htooMany, hdispatch, hstates⟩
  · refine length_filter_le_one ?_
    rw [pairwise_map]
    exact (serveHTTP_pairwise r).imp fun h => attempt_not_executed h

/-! ### Keys that are given back -/

/-- The loop comes to round `i`, for attempt `k`; the flag says that there was a
replan, and the list are the candidates by then. -/
inductive Request.Reaches (r : Request) : ℕ → ℕ → Bool → List Selected → Prop where
  | start (hstarted : r.claimed = .started) (hnone : r.continuation = none) :
      r.Reaches 0 0 false r.candidates
  | replan {i k : ℕ} {c c' : List Selected} (h : r.Reaches i k false c) (hmakes : Makes r.rounds i k c)
      (hstale : (r.rounds i).call.stale = true) (hreplan : (r.rounds i).replan = .ok c') :
      r.Reaches (i + 1) k true c'
  | retry {i k : ℕ} {replanned : Bool} {c : List Selected} (h : r.Reaches i k replanned c)
      (hmakes : Makes r.rounds i k c)
      (htooMany : (r.rounds i).call.tooMany r.principal r.native = true) :
      r.Reaches (i + 1) (k + 1) replanned c

/-- The phase that the attempts before attempt `k` leave behind. -/
def phaseBefore (k : ℕ) (replanned : Bool) : Phase :=
  if 0 < k then .terminal else if replanned then .notDispatched else .unset

variable {r} {i k : ℕ} {replanned : Bool} {c : List Selected}

theorem Request.marks_snoc (calls : List AttemptEnv) : r.marks (calls ++ [env]) =
    (r.marks calls).marks (attempt r.principal r.native env).marks := by
  simp [Request.marks, Phase.marks]

theorem Request.Reaches.calls (h : r.Reaches i k replanned c) :
    ∃ before rest, (serveHTTP r).calls = before ++ rest ∧ r.marks before = phaseBefore k replanned ∧
      Calls r.principal r.native r.rounds i k replanned c rest := by
  induction h with
  | start hstarted hnone => exact ⟨[], _, rfl, rfl, serveHTTP_loop hstarted hnone⟩
  | @replan i k _ _ _ hmakes hstale hc ih =>
    obtain ⟨before, _, heq, hmarks, hcalls⟩ := ih
    obtain ⟨rest, rfl, hnext, -⟩ := hcalls.next hmakes
    refine ⟨before ++ [(r.rounds i).call], rest, by simp [heq], ?_, hnext hstale rfl _ hc⟩
    rw [Request.marks_snoc, hmarks, ((attempt_reports _ _ _).refused hstale).1]
    cases k <;> rfl
  | @retry i _ _ _ _ hmakes htooMany ih =>
    obtain ⟨before, _, heq, hmarks, hcalls⟩ := ih
    obtain ⟨rest, rfl, -, hnext, -⟩ := hcalls.next hmakes
    refine ⟨before ++ [(r.rounds i).call], rest, by simp [heq], ?_, hnext htooMany⟩
    rw [Request.marks_snoc, hmarks, ((attempt_reports _ _ _).tooMany htooMany).1, phaseBefore]
    split
    · rfl
    · split <;> rfl

/-- An attempt of the loop is made in a round that is reached. -/
theorem Calls.reached {calls : List AttemptEnv}
    (hcalls : Calls r.principal r.native r.rounds i k replanned c calls)
    (h : r.Reaches i k replanned c) (hmem : env ∈ calls) :
    ∃ i k replanned c, r.Reaches i k replanned c ∧ Makes r.rounds i k c ∧ env = (r.rounds i).call := by
  induction hcalls with
  | stop => cases hmem
  | last hmakes => exact ⟨_, _, _, _, h, hmakes, mem_singleton.1 hmem⟩
  | replan hmakes hstale hc _ ih =>
    rcases mem_cons.1 hmem with rfl | hmem
    · exact ⟨_, _, _, _, h, hmakes, rfl⟩
    · exact ih (h.replan hmakes hstale hc) hmem
  | retry hmakes htooMany _ ih =>
    rcases mem_cons.1 hmem with rfl | hmem
    · exact ⟨_, _, _, _, h, hmakes, rfl⟩
    · exact ih (h.retry hmakes htooMany) hmem

/-- An attempt without a mark is the last: the request ends with what the
attempts before it have left. -/
theorem Request.Reaches.marks (h : r.Reaches i k replanned c) (hmakes : Makes r.rounds i k c)
    (hquiet : (attempt r.principal r.native (r.rounds i).call).marks = []) :
    (r.rounds i).call ∈ (serveHTTP r).calls ∧ r.marks (serveHTTP r).calls = phaseBefore k replanned := by
  obtain ⟨before, _, heq, hmarks, hcalls⟩ := h.calls
  obtain ⟨rest, rfl, -, -, hlast⟩ := hcalls.next hmakes
  rw [heq, hlast hquiet]
  refine ⟨by simp, ?_⟩
  rw [Request.marks_snoc, hmarks, hquiet]
  rfl

theorem marks_of_quiet (hmem : env ∈ (serveHTTP r).calls)
    (hquiet : (attempt r.principal r.native env).marks = []) :
    r.marks (serveHTTP r).calls = .unset ∨ ∃ i k replanned c, r.Reaches i k replanned c ∧
      Makes r.rounds i k c ∧ env = (r.rounds i).call ∧
      r.marks (serveHTTP r).calls = phaseBefore k replanned := by
  rcases serveHTTP_calls r with ⟨hstarted, hnone⟩ | ⟨one, hone⟩
  · right
    obtain ⟨i, k, replanned, c, h, hmakes, rfl⟩ :=
      (serveHTTP_loop hstarted hnone).reached (.start hstarted hnone) hmem
    exact ⟨i, k, replanned, c, h, hmakes, rfl, (h.marks hmakes hquiet).2⟩
  · left
    rw [hone, Option.mem_toList] at hmem
    rw [hone, hmem, Request.marks, Option.toList_some, flatMap_singleton, hquiet]
    rfl

variable (r)

/-- A key is given back, although the request was sent, if its first plan was
stale and the attempt after the replan has made no mark. -/
theorem discard_dispatched_iff :
    ((∃ env ∈ (serveHTTP r).calls, (attempt r.principal r.native env).dispatched = true) ∧
      (serveHTTP r).finish = some .discard) ↔
    r.discarder = true ∧ ∃ i c, r.Reaches i 0 true c ∧ Makes r.rounds i 0 c ∧
      (r.rounds i).call.quiet r.principal r.native = true := by
  have hreports := attempt_reports r.principal r.native
  constructor
  · rintro ⟨⟨env, hmem, hsent⟩, hdiscard⟩
    rw [serveHTTP_finish hmem, Option.some.injEq, finish_eq_discard] at hdiscard
    obtain ⟨hmarks, hdiscarder⟩ := hdiscard
    refine ⟨hdiscarder, ?_⟩
    -- the attempt that was sent has made no mark, since there is none but a refusal
    have hquiet : (attempt r.principal r.native env).marks = [] := by
      refine eq_nil_iff_forall_not_mem.2 fun m hm => ?_
      have hle := (Phase.marks_le_iff.1 hmarks.le).2 m (mem_flatMap_of_mem hmem hm)
      rcases (hreports env).marks hsent m hm with rfl | rfl <;> exact absurd hle (by decide)
    rcases marks_of_quiet hmem hquiet with hunset | ⟨i, k, replanned, c, h, hmakes, rfl, hphase⟩
    · cases hunset.symm.trans hmarks
    obtain ⟨rfl, rfl⟩ : k = 0 ∧ replanned = true := by
      rw [hmarks, phaseBefore] at hphase
      rcases k with - | k <;> rcases replanned with - | - <;>
        first | exact ⟨rfl, rfl⟩ | cases hphase
    exact ⟨i, c, h, hmakes, ((hreports _).quiet hsent).1 hquiet⟩
  · rintro ⟨hdiscarder, i, c, h, hmakes, hquiet⟩
    have hsent : (attempt r.principal r.native (r.rounds i).call).dispatched = true := by
      rw [(hreports _).dispatched]
      exact AttemptEnv.sent_of_quiet hquiet
    obtain ⟨hmem, hmarks⟩ := h.marks hmakes (((hreports _).quiet hsent).2 hquiet)
    refine ⟨⟨_, hmem, hsent⟩, ?_⟩
    rw [serveHTTP_finish hmem, Option.some.injEq, finish_eq_discard]
    exact ⟨hmarks, hdiscarder⟩

/-- **A key is kept once the request was sent**, exactly unless the store can
give keys back and the attempt on the first candidate that is made after a
replan was sent and has made no mark. -/
theorem key_kept_after_dispatch_iff (r : Request) :
    ((∃ env ∈ (serveHTTP r).calls, (attempt r.principal r.native env).dispatched = true) →
      (serveHTTP r).finish ≠ some .discard) ↔
    ¬ (r.discarder = true ∧ ∃ i c, r.Reaches i 0 true c ∧ Makes r.rounds i 0 c ∧
      (r.rounds i).call.quiet r.principal r.native = true) := by
  rw [← discard_dispatched_iff r, not_and]

def samplePlan : AttemptPlan :=
  { tenantID := "t", requestID := "r", attemptID := "a", keyID := "k", connectionID := "c"
    accountID := "acct", modelID := "m", keyRevision := 1, configRevision := 1
    deadline := Time.ofUnix 60, operation := "generate" }

def samplePermit : AttemptPermit :=
  { tenantID := "t", requestID := "r", attemptID := "a", configRevision := 1 }

def sampleSelected : Selected := ⟨"c", "m"⟩

/-- A portable request to a connector that adapts responses. -/
def adapted : Prepared := { binding := { framing := .other "json" }, wireAdapter := true }

/-- An attempt that is admitted and answered so. -/
def answering (x : Exchange) : AttemptEnv :=
  { prepare := .ok adapted, plan := .ok samplePlan, admission := .ok samplePermit, exchange := x }

/-- The response cannot be adapted. -/
def notAdapted : AttemptEnv :=
  answering { reply := some 200, adapt := some (.plain "unexpected stream") }

/-- A plan that is refused because the configuration has changed. -/
def stalePlan : AttemptEnv :=
  { prepare := .ok adapted
    plan := .error (problem "configuration_stale" 409 "configuration changed; retry planning")
    admission := .ok samplePermit }

/-- The configuration changes before the first plan, and the response to the
second attempt cannot be adapted. -/
def staleThenNotAdapted : Request :=
  { principal := {}, native := false, candidates := [sampleSelected]
    rounds := fun i =>
      if i = 0 then { call := stalePlan, replan := .ok [sampleSelected] } else { call := notAdapted } }

/-- The request is sent, and its key is given back. -/
theorem key_freed_after_dispatch :
    (∃ env ∈ (serveHTTP staleThenNotAdapted).calls, (attempt {} false env).dispatched = true) ∧
      (serveHTTP staleThenNotAdapted).finish = some .discard :=
  ⟨⟨notAdapted, mem_cons_of_mem _ (mem_singleton_self _), rfl⟩, rfl⟩

/-! ### Responses that are stored -/

/-- The response of a request with an ambiguous attempt is stored if it was
captured and an earlier attempt was rejected with 429. -/
theorem record_ambiguous_iff :
    ((∃ response, (serveHTTP r).finish = some (.record (some response))) ∧
      ∃ env ∈ (serveHTTP r).calls, (attempt r.principal r.native env).dispatched = true ∧
        definite (attempt r.principal r.native env).ended = false) ↔
    (captured r.writes).isSome = true ∧ ∃ i replanned c, r.Reaches i 1 replanned c ∧
      Makes r.rounds i 1 c ∧ (r.rounds i).call.ambiguous r.principal r.native = true := by
  have hreports := attempt_reports r.principal r.native
  constructor
  · rintro ⟨⟨response, hfinish⟩, env, hmem, hsent, hopen⟩
    rw [serveHTTP_finish hmem, Option.some.injEq, finish_eq_record_some] at hfinish
    obtain ⟨hmarks, hcaptured⟩ := hfinish
    refine ⟨by rw [hcaptured]; rfl, ?_⟩
    -- the attempt has not marked its outcome as unknown, so it is ambiguous
    have hambiguous : env.ambiguous r.principal r.native = true := by
      by_contra hnot
      have hunknown : .unknown ∉ (attempt r.principal r.native env).marks := fun hm =>
        absurd ((Phase.marks_le_iff.1 hmarks.le).2 _ (mem_flatMap_of_mem hmem hm)) (by decide)
      have hdefinite := (hreports env).definite hsent hunknown (Bool.eq_false_iff.2 hnot)
      rw [hopen] at hdefinite
      cases hdefinite
    rcases marks_of_quiet hmem ((hreports env).ambiguous hambiguous).2.1 with
      hunset | ⟨i, k, replanned, c, h, hmakes, rfl, hphase⟩
    · cases hunset.symm.trans hmarks
    obtain rfl : k = 1 := by
      have := hmakes.1
      rcases k with - | k
      · rw [hmarks] at hphase
        cases replanned <;> cases hphase
      · omega
    exact ⟨i, replanned, c, h, hmakes, hambiguous⟩
  · rintro ⟨hcaptured, i, replanned, c, h, hmakes, hambiguous⟩
    obtain ⟨hsent, hquiet, hended⟩ := (hreports _).ambiguous hambiguous
    obtain ⟨hmem, hmarks⟩ := h.marks hmakes hquiet
    obtain ⟨response, hresponse⟩ := Option.isSome_iff_exists.1 hcaptured
    refine ⟨⟨response, ?_⟩, _, hmem, hsent, by rw [hended]; rfl⟩
    rw [serveHTTP_finish hmem, Option.some.injEq, finish_eq_record_some]
    exact ⟨hmarks, hresponse⟩

/-- **Only definite outcomes are stored for replay**, exactly unless the
response is captured and an attempt on the second candidate, which is made after
a rejection with 429, is ambiguous. -/
theorem recorded_definite_iff (r : Request) :
    ((∃ response, (serveHTTP r).finish = some (.record (some response))) →
      ∀ env ∈ (serveHTTP r).calls, (attempt r.principal r.native env).dispatched = true →
        definite (attempt r.principal r.native env).ended = true) ↔
    ¬ ((captured r.writes).isSome = true ∧ ∃ i replanned c, r.Reaches i 1 replanned c ∧
      Makes r.rounds i 1 c ∧ (r.rounds i).call.ambiguous r.principal r.native = true) := by
  rw [← record_ambiguous_iff r]
  simp only [not_exists, not_and, Bool.not_eq_false]

/-- The first target answers with 429, and the response of the second cannot be
adapted; the client is told so. -/
def rejectedThenNotAdapted : Request :=
  { principal := {}, native := false, candidates := [sampleSelected, ⟨"c2", "m2"⟩]
    rounds := fun i =>
      if i = 0 then { call := answering { reply := some 429 } }
      else { fresh := .ok [⟨"c2", "m2"⟩], call := notAdapted }
    writes := [.writeHeader 500, .write [123, 125] 2 false] }

/-- The outcome of the second attempt is not known, and the error is stored as
the answer. -/
theorem ambiguous_recorded :
    (∃ response, (serveHTTP rejectedThenNotAdapted).finish = some (.record (some response))) ∧
      ∃ env ∈ (serveHTTP rejectedThenNotAdapted).calls, (attempt {} false env).dispatched = true ∧
        (attempt {} false env).ended = some .outcomeUnknown :=
  ⟨⟨⟨500, [123, 125]⟩, rfl⟩, ⟨notAdapted, mem_cons_of_mem _ (mem_singleton_self _), rfl, rfl⟩⟩

end Hoorific.Gateway
