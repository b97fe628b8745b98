/-
The output bound of a plan against the output a request asks for.  The
planner decodes a body into a struct with the fields `max_tokens` and
`max_output_tokens`: names match in any case, the last member decides a
field, and the second field is preferred (`askedOutput`).  A provider reads
the members of the body by their exact names, and there are three of them.

The bound is the output the planner takes to be asked for, within the limit
of the model (`boundModel_outputBound`).  So it covers every member exactly
if the member that decides asks for as much as any of them.
-/
import Hoorific.Store.Planner

namespace Hoorific

/-! ### What the planner reads -/

def Json.asInt : Json → Option ℤ
  | .int n => some n
  | _ => none

/-- The value that decides a field: the last member with its name, in any case. -/
def decidingMember (d : JsonDecoder) (field : String) (ms : List (String × Json)) : Option Json :=
  (ms.reverse.find? fun m => m.1 == field || d.equalFold m.1 field).map Prod.snd

/-- The output the planner takes a body to ask for: `max_output_tokens` unless
it is absent or null, then `max_tokens`. -/
def askedOutput (d : JsonDecoder) (ms : List (String × Json)) : Option ℤ :=
  (decidingMember d "max_output_tokens" ms).bind Json.asInt <|>
    (decidingMember d "max_tokens" ms).bind Json.asInt

variable {d : JsonDecoder} {out out' : AttemptPlan} {m : Model} {ms : List (String × Json)}

theorem decodeInt64_ok {v : Json} {r : Option ℤ} (h : decodeInt64 v = some r) : r = v.asInt := by
  unfold decodeInt64 at h
  split at h
  next => exact (Option.some.inj h).symm
  next n =>
    split at h
    next => exact (Option.some.inj h).symm
    next => cases h
  next => cases h

/-- A field of the struct has the value of the member that decides it. -/
theorem int64Field_ok {field : String} {r : Option ℤ} (h : int64Field d field ms = some r) :
    r = (decidingMember d field ms).bind Json.asInt := by
  -- members are looked at in order, so the induction is on the last one
  induction ms using List.reverseRecOn generalizing r with
  | nil => exact (Option.some.inj h).symm
  | append_singleton ms member ih =>
    rw [int64Field, List.foldlM_append] at h
    obtain ⟨current, hcurrent, h⟩ := Option.bind_eq_some_iff.1 h
    rw [List.foldlM_cons] at h
    obtain ⟨next, hnext, h⟩ := Option.bind_eq_some_iff.1 h
    cases h
    rw [decidingMember, List.reverse_append, List.reverse_singleton, List.singleton_append,
      List.find?_cons]
    split at hnext
    next hmatch =>
      rw [hmatch]
      exact decodeInt64_ok hnext
    next hmatch =>
      cases hnext
      rw [Bool.eq_false_iff.2 hmatch]
      exact ih hcurrent

/-- A plan of a model with an output limit is bounded by what the planner takes
the body to ask for, within the limit. -/
theorem boundModel_outputBound {limit : ℤ} (hlimit : m.outputLimit = some limit)
    (h : boundModel d out m (.value (.obj ms)) = .ok out') :
    out'.outputBound = some (match askedOutput d ms with
      | none => limit
      | some asked => min asked limit) := by
  unfold boundModel at h
  rcases hmeta : outputMeta d (.value (.obj ms)) with - | ⟨maxTokens, maxOutputTokens⟩
  · rw [hmeta] at h
    cases h
  -- the two fields are those of the members that decide them
  have hasked : (maxOutputTokens <|> maxTokens) = askedOutput d ms := by
    simp only [outputMeta, Option.bind_eq_bind, Option.bind_eq_some_iff, Option.pure_def,
      Option.some.injEq, Prod.mk.injEq] at hmeta
    obtain ⟨_, htokens, _, houtput, rfl, rfl⟩ := hmeta
    rw [int64Field_ok htokens, int64Field_ok houtput]
    rfl
  have hbound : outputBound m.outputLimit maxTokens maxOutputTokens =
      some (match askedOutput d ms with
        | none => limit
        | some asked => min asked limit) := by
    rw [outputBound, hlimit, hasked]
    cases askedOutput d ms with
    | none => rfl
    | some asked =>
      show some (if asked > limit then limit else asked) = some (min asked limit)
      split
      next hgt => rw [min_eq_right hgt.le]
      next hle => rw [min_eq_left (not_lt.1 hle)]
  rw [hmeta] at h
  simp only [Check.bind_ok, Check.require_ok, hbound] at h
  obtain ⟨-, -, h⟩ := h
  split at h
  next =>
    cases h
    rfl
  next =>
    split at h
    next =>
      obtain ⟨cost, -, h⟩ := Check.bind_ok.1 h
      cases h
      rfl
    next =>
      cases h
      rfl

/-! ### What a provider reads -/

/-- A member that asks a provider for an output of `v` tokens. -/
def AsksOutput (ms : List (String × Json)) (v : ℤ) : Prop :=
  0 ≤ v ∧ ∃ name ∈ ["max_tokens", "max_output_tokens", "max_completion_tokens"],
    (name, Json.int v) ∈ ms

/-- **The output bound is conservative** exactly if the member that decides
asks for as much as every member a provider may read, up to the limit. -/
theorem output_bound_conservative_iff (d : JsonDecoder) (out out' : AttemptPlan) (m : Model)
    (limit : ℤ) (ms : List (String × Json)) (hlimit : m.outputLimit = some limit)
    (h : boundModel d out m (.value (.obj ms)) = .ok out') :
    (∀ v, AsksOutput ms v → ∃ bound, out'.outputBound = some bound ∧ min v limit ≤ bound) ↔
      ∀ asked, askedOutput d ms = some asked → ∀ v, AsksOutput ms v → min v limit ≤ asked := by
  rw [boundModel_outputBound hlimit h]
  cases askedOutput d ms with
  | none =>
    constructor
    · intro _ asked hasked
      cases hasked
    · intro _ v _
      exact ⟨limit, rfl, min_le_right v limit⟩
  | some asked =>
    constructor
    · intro hall asked' hasked v hv
      cases hasked
      obtain ⟨bound, hbound, hle⟩ := hall v hv
      cases hbound
      exact hle.trans (min_le_left _ _)
    · intro hall v hv
      exact ⟨_, rfl, le_min (hall asked rfl v hv) (min_le_right v limit)⟩

/-- A decoder for bodies whose names are all in exact case. -/
def exactDecoder : JsonDecoder := ⟨fun _ _ => false, fun _ => true⟩

/-- A model with an output limit. -/
def limitedModel : Model :=
  { catalogID := "m", id := "gpt", connectionID := "c", version := 1, operations := ["*"]
    contextLimit := some 8192, outputLimit := some 4096 }

/-- A plan for that model, before it is bounded. -/
def unboundedPlan : AttemptPlan :=
  { tenantID := "t", requestID := "r", attemptID := "x", keyID := "k", connectionID := "c"
    modelID := "m", keyRevision := 1, deadline := Time.ofUnix 1000, operation := "generate" }

/-- One member decides and is all that is asked for. -/
theorem single_output_bounded :
    ∃ bound, ({ unboundedPlan with inputBound := some 8192, outputBound := some 1000 } :
      AttemptPlan).outputBound = some bound ∧ min 1000 4096 ≤ bound := by
  refine (output_bound_conservative_iff exactDecoder unboundedPlan
    { unboundedPlan with inputBound := some 8192, outputBound := some 1000 } limitedModel 4096
    [("max_tokens", .int 1000)] rfl rfl).2 ?_ 1000 ⟨by decide, "max_tokens", by simp, by simp⟩
  rintro asked hasked v ⟨-, name, -, hv⟩
  cases hasked
  obtain ⟨-, rfl⟩ : name = "max_tokens" ∧ v = 1000 := by simpa using hv
  decide

/-- The body `{"max_tokens":10,"max_completion_tokens":1000}` is bounded by 10
tokens: the planner does not know the name a provider prefers. -/
theorem completion_tokens_not_bounded :
    ∃ out', boundModel exactDecoder unboundedPlan limitedModel
        (.value (.obj [("max_tokens", .int 10), ("max_completion_tokens", .int 1000)])) = .ok out' ∧
      AsksOutput [("max_tokens", .int 10), ("max_completion_tokens", .int 1000)] 1000 ∧
      ¬ ∃ bound, out'.outputBound = some bound ∧ min 1000 4096 ≤ bound := by
  refine ⟨{ unboundedPlan with inputBound := some 8192, outputBound := some 10 }, rfl,
    ⟨by decide, "max_completion_tokens", by simp, by simp⟩, ?_⟩
  rintro ⟨bound, hbound, hle⟩
  cases hbound
  exact absurd hle (by decide)

end Hoorific
