/-
Cache directives and cost bounds.  A request that writes to the prompt cache
or reads from it is billed at rates of its own, so a plan has a cost bound
for it only if the price has them.  Which directives a request has is decided
twice: by the codec that decodes the body, and by the search that prices it.

The two agree on bodies that spell the names of their members exactly, with
one exception for each of the protocols of the first vendor: the search
does not look at images and files of a chat, nor at the output texts of a
response.
-/
import Hoorific.Protocol.AnthropicDirectives
import Hoorific.Protocol.BedrockDirectives
import Hoorific.Protocol.ChatDirectives
import Hoorific.Protocol.ResponsesDirectives
import Hoorific.Store.OutputBounds

namespace Hoorific

open Check Protocol Protocol.Request Unmarshal

/-! ### Codecs -/

/-- The codecs whose requests can have directives. -/
inductive CacheCodec where
  | chat | responses | anthropic | bedrock
deriving DecidableEq

namespace CacheCodec

/-- `DecodeRequest`, with the spellings it takes for the name of a field. -/
def decodeRequest (codec : CacheCodec) (t : Texts) (spelling : Spelling) (size : ℕ) (body : Json) :
    Decoded Conversation :=
  match codec with
  | .chat => ChatRequest.decodeRequest t spelling size body
  | .responses => ResponsesRequest.decodeRequest t size body
  | .anthropic => AnthropicRequest.decodeRequest t spelling size body
  | .bedrock => BedrockRequest.decodeRequest t spelling size body

/-- A directive on a part that the search does not look at. -/
def Hides (codec : CacheCodec) (ms : List (String × Json)) : Prop :=
  match codec with
  | .chat => ChatRequest.HidesDirective ms
  | .responses => ResponsesRequest.HidesBreakpoint ms
  | .anthropic | .bedrock => False

end CacheCodec

variable {codec : CacheCodec} {t : Texts} {size : ℕ} {ms : List (String × Json)} {c : Conversation}
  {body : Json} {inRange : String → Bool} {field : String} {schedule : PriceSchedule}

/-- In a body that spells its names exactly, every directive that is on no hidden
part is found. -/
theorem shows_of_decoded (h : codec.decodeRequest t exactly size (.obj ms) = .ok c)
    {need : CacheNeed} (hneeds : c.Needs need) (hhides : ¬ codec.Hides ms) : Shows need ms := by
  cases codec with
  | chat => exact ChatRequest.shows_of_exact h hneeds hhides
  | responses => exact ResponsesRequest.shows_of_listed h hneeds hhides
  | anthropic => exact AnthropicRequest.shows_of_exact h hneeds
  | bedrock => exact BedrockRequest.shows_of_exact h hneeds

/-! ### Accepted bodies -/

theorem decodeInt64_of_pointer {p q : Option Int} {v : Json}
    (h : pointer 0 Unmarshal.int64 p v = .ok q) : (decodeInt64 v).isSome := by
  cases v with
  | null => rfl
  | int n =>
    simp only [pointer, Unmarshal.int64] at h
    split at h
    next hrange =>
      have hmax : maxInt64 = 2 ^ 63 - 1 := rfl
      rw [decodeInt64, if_pos (by omega)]
      rfl
    · cases h
  | bool | real | str | arr | obj => cases h

/-- A field of the metadata can be read if every member that is taken for it can. -/
theorem int64Field_isSome (h : ∀ m ∈ ms, foldKey m.1 = foldKey field → (decodeInt64 m.2).isSome) :
    (int64Field ⟨equalFold, inRange⟩ field ms).isSome := by
  unfold int64Field
  generalize (none : Option Int) = start
  induction ms generalizing start with
  | nil => rfl
  | cons m rest ih =>
    have hrest := ih fun x hx => h x (List.mem_cons_of_mem m hx)
    rw [List.foldlM_cons]
    by_cases hname : (m.1 == field || equalFold m.1 field) = true
    · have hkey : foldKey m.1 = foldKey field := by
        rcases Bool.or_eq_true_iff.1 hname with hname | hname
        · rw [eq_of_beq hname]
        · exact equalFold_iff.1 hname
      rw [if_pos hname]
      obtain ⟨n, hn⟩ := Option.isSome_iff_exists.1 (h m List.mem_cons_self hkey)
      rw [hn]
      exact hrest n
    · rw [if_neg hname]
      exact hrest start

/-- The fields of that name take integers only. -/
def TakesInt64 {σ : Type} (field : String) (fields : List (StructField σ)) : Prop :=
  ∀ f ∈ fields, foldKey f.name = foldKey field → ∀ s v s', f.into s v = .ok s' →
    (decodeInt64 v).isSome

theorem int64Field_of_struct {σ : Type} {fields : List (StructField σ)} {s s' : σ}
    (hfields : TakesInt64 field fields)
    (h : ms.foldlM (member equalFold true fields) s = .ok s') :
    (int64Field ⟨equalFold, inRange⟩ field ms).isSome := by
  apply int64Field_isSome
  intro m hm hkey
  obtain ⟨f, s₁, s₂, hf, hinto⟩ := accepts_member h hm
  exact hfields f (findField_mem hf) ((foldKey_of_findField hf).trans hkey) s₁ m.2 s₂ hinto

section

variable (hfield : field = "max_tokens" ∨ field = "max_output_tokens")
include hfield

theorem chat_int64 (fits : Json → Bool) :
    TakesInt64 field (ChatRequest.requestFields equalFold fits) := by
  intro f hf hkey s v s' hinto
  simp only [ChatRequest.requestFields, List.mem_cons, List.not_mem_nil, or_false] at hf
  rcases hfield with rfl | rfl
  all_goals
    rcases hf with rfl | rfl | rfl | rfl | rfl | rfl | rfl | rfl | rfl | rfl | rfl | rfl | rfl
  case inl.inr.inr.inr.inl =>
    obtain ⟨a, ha, -⟩ := StructField.of_ok.1 hinto
    exact decodeInt64_of_pointer ha
  all_goals
    simp only [StructField.of] at hkey
    exact absurd hkey (by decide)

theorem anthropic_int64 : TakesInt64 field (AnthropicRequest.requestFields equalFold) := by
  intro f hf hkey s v s' hinto
  simp only [AnthropicRequest.requestFields, List.mem_cons, List.not_mem_nil, or_false] at hf
  rcases hfield with rfl | rfl
  all_goals rcases hf with rfl | rfl | rfl | rfl | rfl | rfl | rfl | rfl | rfl
  case inl.inr.inl =>
    obtain ⟨a, ha, -⟩ := StructField.of_ok.1 hinto
    exact decodeInt64_of_pointer ha
  all_goals exact absurd hkey (by decide)

theorem bedrock_int64 : TakesInt64 field (BedrockRequest.requestFields equalFold) := by
  intro f hf hkey
  simp only [BedrockRequest.requestFields, List.mem_cons, List.not_mem_nil, or_false] at hf
  rcases hfield with rfl | rfl
  all_goals
    rcases hf with rfl | rfl | rfl | rfl
    all_goals exact absurd hkey (by decide)

/-- The members of a response's request are listed, and its limit is an integer. -/
theorem responses_int64 {q : Conversation} (hnodup : (names ms).Nodup)
    (h : ResponsesRequest.conversationFromObject t ms = .ok q) {m : String × Json} (hm : m ∈ ms)
    (hkey : foldKey m.1 = foldKey field) :
    (decodeInt64 m.2).isSome := by
  unfold ResponsesRequest.conversationFromObject at h
  simp only [bind_ok] at h
  obtain ⟨_, hfields, _, -, _, -, _, -, _, -, _, -, h⟩ := h
  have hlisted : m.1 ∈ ResponsesRequest.requestMembers := by
    have hone := forM_ok.1 hfields m hm
    simpa using hone
  have hname : field = "max_output_tokens" ∧ m.1 = "max_output_tokens" := by
    generalize m.1 = name at hlisted hkey
    revert name
    rcases hfield with rfl | rfl <;> decide
  split at h
  · cases h
  simp only [bind_ok] at h
  obtain ⟨_, -, max, hmax, -⟩ := h
  simp only [ResponsesRequest.maxFromObject, bind_ok] at hmax
  obtain ⟨found, hfound, -⟩ := hmax
  have hmember : memberOf "max_output_tokens" ms = some m.2 := by
    rw [memberOf_eq_some_iff hnodup, ← hname.2]
    exact hm
  unfold ResponsesRequest.get? at hfound
  rw [hmember] at hfound
  generalize m.2 = v at hfound
  cases v with
  | int n =>
    rcases hn : Unmarshal.int64 0 (.int n) with e | k
    · simp only [hn] at hfound
      cases hfound
    refine decodeInt64_of_pointer (p := none) (q := some k) ?_
    show (Unmarshal.int64 0 (.int n)).map some = _
    rw [hn]
    rfl
  | null | bool | real | str | arr | obj => cases hfound

end

/-- The body of a request that is accepted is an object, and its limits can be read. -/
theorem object_of_decoded (inRange : String → Bool)
    (h : codec.decodeRequest t equalFold size body = .ok c) :
    ∃ ms, body = .obj ms ∧ ∀ field, field = "max_tokens" ∨ field = "max_output_tokens" →
      (int64Field ⟨equalFold, inRange⟩ field ms).isSome := by
  cases codec with
  | chat =>
    simp only [CacheCodec.decodeRequest, ChatRequest.decodeRequest, ChatRequest.wire, bind_ok] at h
    obtain ⟨q, ⟨_, -, hq⟩, conv, hconv, -⟩ := h
    rcases struct_ok (scanned_ok.1 hq).2 with ⟨ms, rfl, hms⟩ | ⟨-, rfl⟩
    · exact ⟨ms, rfl, fun field hfield => int64Field_of_struct (chat_int64 hfield t.fits) hms⟩
    · cases hconv
  | responses =>
    simp only [CacheCodec.decodeRequest, ResponsesRequest.decodeRequest, ResponsesRequest.wire,
      bind_ok] at h
    obtain ⟨m, ⟨_, -, r, hr, hm⟩, q, hq, -⟩ := h
    split at hm <;> cases hm
    obtain ⟨hscan, hmap⟩ := scanned_ok.1 hr
    obtain rfl := ResponsesRequest.map_ok hmap
    refine ⟨m, rfl, fun field hfield => int64Field_isSome fun x hx hkey => ?_⟩
    exact responses_int64 hfield (scan_obj_nodup hscan) hq hx hkey
  | anthropic =>
    simp only [CacheCodec.decodeRequest, AnthropicRequest.decodeRequest, AnthropicRequest.wire,
      bind_ok] at h
    obtain ⟨a, ⟨_, -, ha⟩, hc⟩ := h
    rcases struct_ok (scanned_ok.1 ha).2 with ⟨ms, rfl, hms⟩ | ⟨-, rfl⟩
    · exact ⟨ms, rfl, fun field hfield => int64Field_of_struct (anthropic_int64 hfield) hms⟩
    · cases hc
  | bedrock =>
    simp only [CacheCodec.decodeRequest, BedrockRequest.decodeRequest, BedrockRequest.wire,
      bind_ok] at h
    obtain ⟨n, ⟨_, -, hn⟩, hc⟩ := h
    rcases struct_ok (scanned_ok.1 hn).2 with ⟨ms, rfl, hms⟩ | ⟨-, rfl⟩
    · exact ⟨ms, rfl, fun field hfield => int64Field_of_struct (bedrock_int64 hfield) hms⟩
    · cases hc

/-- The planner can read the metadata of a body whose limits can be read. -/
theorem outputMeta_of_fields (h : ∀ field, field = "max_tokens" ∨ field = "max_output_tokens" →
    (int64Field ⟨equalFold, inRange⟩ field ms).isSome) :
    (outputMeta ⟨equalFold, inRange⟩ (.value (.obj ms))).isSome := by
  obtain ⟨maxTokens, hmax⟩ := Option.isSome_iff_exists.1 (h "max_tokens" (.inl rfl))
  obtain ⟨maxOutput, houtput⟩ := Option.isSome_iff_exists.1 (h "max_output_tokens" (.inr rfl))
  rw [outputMeta, hmax, houtput]
  rfl

/-! ### Rates -/

/-- When a price has the rates that are required: one rate for all writes, or one
for each time to live. -/
theorem cachePricingAvailable_some (schedule : PriceSchedule) (r : CacheRequirements) :
    cachePricingAvailable (some schedule) r = true ↔
      (r.read = true → schedule.cachedInputPerMillion.isSome) ∧
      (r.write = true → schedule.cacheWriteInputPerMillion.isSome ∨
        r.otherTTL = false ∧ (r.ttl5m = true ∨ r.ttl1h = true) ∧
          (r.ttl5m = true → schedule.cacheWrite5mPerMillion.isSome) ∧
          (r.ttl1h = true → schedule.cacheWrite1hPerMillion.isSome)) := by
  have hnone : ∀ rate : Option Int, rate.isNone = !rate.isSome := fun rate => by cases rate <;> rfl
  simp only [cachePricingAvailable, hnone]
  generalize r.read = read, r.write = write, r.otherTTL = other, r.ttl5m = five, r.ttl1h = one
  generalize schedule.cachedInputPerMillion.isSome = rateRead,
    schedule.cacheWriteInputPerMillion.isSome = rateWrite,
    schedule.cacheWrite5mPerMillion.isSome = rate5m, schedule.cacheWrite1hPerMillion.isSome = rate1h
  cases write with
  | false => cases read <;> simp
  | true => cases read <;> cases other <;> cases five <;> cases one <;> cases rateWrite <;> simp

/-- A directive: a read of the cache, or a write with a time to live. -/
inductive CacheDirective where
  | read
  | write (ttl : String)
deriving DecidableEq

variable {directive : CacheDirective}

namespace CacheDirective

def need : CacheDirective → CacheNeed
  | .read => .read
  | .write _ => .write

/-- What a request with this directive alone requires of a price. -/
def requirements : CacheDirective → CacheRequirements
  | .read => { read := true }
  | .write ttl => ({} : CacheRequirements).addWriteTTL ttl

/-- A price that does not have the rate that the directive needs. -/
def Unpriced (directive : CacheDirective) (schedule : PriceSchedule) : Prop :=
  cachePricingAvailable (some schedule) directive.requirements = false

theorem unpriced_write {ttl : String} :
    (write ttl).Unpriced schedule ↔ schedule.cacheWriteInputPerMillion = none ∧
      (ttl = "5m" → schedule.cacheWrite5mPerMillion = none) ∧
      (ttl = "1h" → schedule.cacheWrite1hPerMillion = none) := by
  have hflag : ∀ f, (requirements (write ttl)).flag f = true ↔ f.takes ttl := by
    intro f
    rw [requirements, (addWriteTTL_adds _ ttl).flag]
    cases f <;> simp [CacheRequirements.flag]
  have hread : (requirements (write ttl)).read = false := by
    simpa [requirements] using (addWriteTTL_adds {} ttl).read
  have hwrite := hflag .write
  have h5m := hflag .ttl5m
  have h1h := hflag .ttl1h
  have hother := hflag .otherTTL
  simp only [CacheRequirements.flag, WriteFlag.takes, anyTTL, iff_true] at hwrite h5m h1h hother
  rw [Unpriced, ← Bool.not_eq_true, cachePricingAvailable_some, ← Bool.not_eq_true (requirements _).otherTTL,
    hread, hwrite, h5m, h1h, hother]
  by_cases hfive : ttl = "5m"
  · simp [hfive, Option.isSome_iff_ne_none]
  by_cases hone : ttl = "1h"
  · simp [hone, Option.isSome_iff_ne_none]
  · simp [hfive, hone, Option.isSome_iff_ne_none]

/-- The findings that the price of a directive depends on: a read; or a write, and
among the times to live of writes this one, if it has a rate of its own, or one
that has none, or none that has one. -/
def Covers (r : CacheRequirements) : CacheDirective → Prop
  | .read => r.read = true
  | .write ttl => r.write = true ∧ (r.otherTTL = true ∨ (ttl = "5m" ∧ r.ttl5m = true) ∨
      (ttl = "1h" ∧ r.ttl1h = true) ∨ (r.ttl5m = false ∧ r.ttl1h = false))

variable {r : CacheRequirements}

theorem Covers.withheld (h : directive.Covers r) (hunpriced : directive.Unpriced schedule) :
    cachePricingAvailable (some schedule) r = false := by
  rw [← Bool.not_eq_true, cachePricingAvailable_some]
  rintro ⟨hread, hwrite⟩
  cases directive with
  | read =>
    have hlacks : schedule.cachedInputPerMillion.isSome = false := by
      rw [Unpriced, ← Bool.not_eq_true, cachePricingAvailable_some] at hunpriced
      simpa [requirements] using hunpriced
    exact absurd (hread h) (by simp [hlacks])
  | write ttl =>
    obtain ⟨hgeneral, hfive, hone⟩ := unpriced_write.1 hunpriced
    rcases hwrite h.1 with hrate | ⟨hother, hown, h5m, h1h⟩
    · rw [hgeneral] at hrate
      cases hrate
    rcases h.2 with h | ⟨httl, h⟩ | ⟨httl, h⟩ | h
    · rw [hother] at h
      cases h
    · have hrate := h5m h
      rw [hfive httl] at hrate
      cases hrate
    · have hrate := h1h h
      rw [hone httl] at hrate
      cases hrate
    · rw [h.1, h.2] at hown
      rcases hown with h | h <;> cases h

variable (operation : Operation)

/-- A price with every rate but the one that the directive needs. -/
def otherRates : CacheDirective → PriceSchedule
  | .read =>
    { version := "v", cacheWriteInputPerMillion := some 0, cacheWrite5mPerMillion := some 0
      cacheWrite1hPerMillion := some 0, maximumUnitCost := some 0, unitOperation := operation }
  | .write ttl =>
    { version := "v", cachedInputPerMillion := some 0
      cacheWrite5mPerMillion := if ttl = "5m" then none else some 0
      cacheWrite1hPerMillion := if ttl = "1h" then none else some 0
      maximumUnitCost := some 0, unitOperation := operation }

theorem otherRates_unpriced (directive : CacheDirective) :
    directive.Unpriced (directive.otherRates operation) := by
  cases directive with
  | read => rfl
  | write ttl =>
    refine unpriced_write.2 ⟨rfl, fun h => ?_, fun h => ?_⟩ <;> simp [otherRates, h]

/-- Where the findings do not cover a directive, that price has a bound. -/
theorem otherRates_available (h : ¬ directive.Covers r) :
    cachePricingAvailable (some (directive.otherRates operation)) r = true := by
  rw [cachePricingAvailable_some]
  cases directive with
  | read => exact ⟨fun hread => absurd hread h, fun _ => .inl rfl⟩
  | write ttl =>
    refine ⟨fun _ => rfl, fun hwrite => .inr ?_⟩
    simp only [Covers, hwrite, true_and, not_or, not_and, Bool.not_eq_true] at h
    obtain ⟨hother, hfive, hone, hown⟩ := h
    refine ⟨hother, ?_, fun h5m => ?_, fun h1h => ?_⟩
    · by_cases h5m : r.ttl5m = true
      · exact .inl h5m
      · exact .inr (by simpa using hown (by simpa using h5m))
    · have hne : ttl ≠ "5m" := fun h => by simp [hfive h] at h5m
      simp [otherRates, hne]
    · have hne : ttl ≠ "1h" := fun h => by simp [hone h] at h1h
      simp [otherRates, hne]

/-- A body in which the search finds what the price of a directive depends on. -/
def Priced (ms : List (String × Json)) : CacheDirective → Prop
  | .read => Shows .read ms
  | .write ttl => Shows .write ms ∧
      (ShowsWrite WriteFlag.otherTTL.takes ms ∨ (ttl = "5m" ∧ ShowsWrite (· = "5m") ms) ∨
        (ttl = "1h" ∧ ShowsWrite (· = "1h") ms) ∨
        (¬ ShowsWrite (· = "5m") ms ∧ ¬ ShowsWrite (· = "1h") ms))

theorem covers_iff_priced (ms : List (String × Json)) (directive : CacheDirective) :
    directive.Covers (inspectCacheJSON (.obj ms) {}) ↔ directive.Priced ms := by
  obtain ⟨hread, hflag⟩ := inspectCacheJSON_found ms
  cases directive with
  | read => exact hread
  | write ttl =>
    have hwrite := hflag .write
    have h5m := hflag .ttl5m
    have h1h := hflag .ttl1h
    have hother := hflag .otherTTL
    simp only [CacheRequirements.flag, WriteFlag.takes] at hwrite h5m h1h hother
    simp only [Covers, Priced, Shows, WriteFlag.takes, ← Bool.not_eq_true, hwrite, h5m, h1h, hother]

theorem Covers.reported (h : directive.Covers r) : r.read = true ∨ r.write = true := by
  cases directive with
  | read => exact .inl h
  | write ttl => exact .inr h.1

end CacheDirective

/-- The directives of a conversation.  A breakpoint lives as long as the options of
the request say. -/
def Protocol.Request.Conversation.Has (c : Conversation) : CacheDirective → Prop
  | .read => c.Needs .read
  | .write ttl =>
    (∃ b ∈ c.blocks, (∃ control, b.cacheControl = some control ∧ control.ttl = ttl) ∨
      b.cacheBreakpoint = true ∧ c.cache.elim "" (·.ttl) = ttl) ∨
    (∃ x ∈ c.tools, (∃ control, x.cacheControl = some control ∧ control.ttl = ttl) ∨
      x.cacheBreakpoint = true ∧ c.cache.elim "" (·.ttl) = ttl) ∨
    ∃ p, c.cache = some p ∧ ((∃ control, p.control = some control ∧ control.ttl = ttl) ∨
      (p.mode = "explicit" ∨ p.ttl ≠ "") ∧ p.ttl = ttl)

theorem needs_of_has (h : c.Has directive) : c.Needs directive.need := by
  cases directive with
  | read => exact h
  | write ttl =>
    rcases h with ⟨b, hb, ⟨_, hcontrol, -⟩ | ⟨hmark, -⟩⟩ | ⟨x, hx, ⟨_, hcontrol, -⟩ | ⟨hmark, -⟩⟩ |
      ⟨p, hp, ⟨_, hcontrol, -⟩ | ⟨hmode | httl, -⟩⟩
    · exact .inl ⟨b, hb, .inl (by simp [hcontrol])⟩
    · exact .inl ⟨b, hb, .inr hmark⟩
    · exact .inr (.inl ⟨x, hx, .inl (by simp [hcontrol])⟩)
    · exact .inr (.inl ⟨x, hx, .inr hmark⟩)
    · exact .inr (.inr ⟨p, hp, .inl (by simp [hcontrol])⟩)
    · exact .inr (.inr ⟨p, hp, .inr (.inl hmode)⟩)
    · exact .inr (.inr ⟨p, hp, .inr (.inr httl)⟩)

/-! ### Cost bounds -/

/-- A model without limits that has a price. -/
def pricedModel (schedule : PriceSchedule) : Model :=
  { limitedModel with contextLimit := none, outputLimit := none, price := some schedule }

/-- If the required rates are there, a model whose operation has a unit cost has a
cost bound. -/
theorem boundModel_unitCost (inRange : String → Bool)
    (hmeta : (outputMeta ⟨equalFold, inRange⟩ (.value body)).isSome)
    (hrates : cachePricingAvailable (some schedule) (cachePricingRequired inRange (.value body)) = true)
    (hunit : unitCost unboundedPlan.operation schedule = some 0) :
    ∃ out', boundModel ⟨equalFold, inRange⟩ unboundedPlan (pricedModel schedule) (.value body) =
      .ok out' ∧ out'.maximumCost = some 0 := by
  obtain ⟨⟨maxTokens, maxOutputTokens⟩, hread⟩ := Option.isSome_iff_exists.1 hmeta
  refine ⟨{ unboundedPlan with priceVersion := schedule.version, maximumCost := some 0 }, ?_, rfl⟩
  simp only [boundModel, hread, pricedModel, hrates, if_true]
  rw [← hunit]
  rfl

/-- **Directives are priced in the bodies that show them.**  For a directive of an
accepted request, the search reports a read or a write and no price without the rate
of the directive gives a cost bound, exactly if every number of the body is a `float64`
and the body shows the directive where the search looks, with its time to live.  A body
that spells its names exactly shows every directive that is on no hidden part. -/
theorem directive_priced_iff (inRange : String → Bool) (t : Texts) (codec : CacheCodec) (size : ℕ)
    (body : Json) (c : Conversation) (directive : CacheDirective)
    (haccepted : codec.decodeRequest t equalFold size body = .ok c) (hhas : c.Has directive) :
    ((((cachePricingRequired inRange (.value body)).read = true ∨
          (cachePricingRequired inRange (.value body)).write = true) ∧
        ∀ m schedule out out', m.price = some schedule → directive.Unpriced schedule →
          out.maximumCost = none →
          boundModel ⟨equalFold, inRange⟩ out m (.value body) = .ok out' → out'.maximumCost = none) ↔
      body.floats inRange = true ∧ ∃ ms, body = .obj ms ∧ directive.Priced ms) ∧
    ∀ ms, body = .obj ms → codec.decodeRequest t exactly size body = .ok c → ¬ codec.Hides ms →
      Shows directive.need ms := by
  obtain ⟨ms, rfl, hfields⟩ := object_of_decoded inRange haccepted
  refine ⟨⟨?_, ?_⟩, ?_⟩
  · rintro ⟨hreported, hwithheld⟩
    have hfloats : (Json.obj ms).floats inRange = true := by
      by_contra hfloats
      rw [cachePricingRequired, if_neg hfloats] at hreported
      rcases hreported with h | h <;> cases h
    refine ⟨hfloats, ms, rfl, ?_⟩
    rw [← CacheDirective.covers_iff_priced]
    by_contra hcovers
    -- a price with all other rates gives a bound
    have hrates := CacheDirective.otherRates_available unboundedPlan.operation hcovers
    obtain ⟨out', hbound, hcost⟩ := boundModel_unitCost inRange (outputMeta_of_fields hfields)
      (by rw [cachePricingRequired, if_pos hfloats]; exact hrates)
      (by cases directive <;> rfl)
    have hnone := hwithheld _ _ _ _ rfl (CacheDirective.otherRates_unpriced _ directive) rfl hbound
    rw [hcost] at hnone
    cases hnone
  · rintro ⟨hfloats, _, ⟨⟩, hpriced⟩
    have hcovers := (CacheDirective.covers_iff_priced ms directive).2 hpriced
    have hrequired : cachePricingRequired inRange (.value (.obj ms)) = inspectCacheJSON (.obj ms) {} := by
      rw [cachePricingRequired, if_pos hfloats]
    rw [hrequired]
    refine ⟨hcovers.reported, ?_⟩
    intro m schedule out out' hprice hunpriced hnone hbound
    refine ((boundModel_ok hbound).2 ?_).trans hnone
    rw [hprice, hrequired]
    exact hcovers.withheld hunpriced
  · rintro _ ⟨⟩ hexact hhides
    exact shows_of_decoded hexact (needs_of_has hhas) hhides

/-- Texts without JSON or base64 in them. -/
def plainTexts : Texts :=
  { parse := fun _ => none, text := fun _ => "", base64 := fun _ => none, fits := fun _ => true }

/-- A chat whose only part directs the cache. -/
def directedChat (type key : String) (value : Json) : Json :=
  .obj [("model", .str "m"), ("messages", .arr [.obj [("role", .str "user"), ("content", .arr [.obj
    [("type", .str type), (key, value), ("cache_control", .obj [("type", .str "ephemeral")])]])]])]

/-- A directive on a text withholds the cost bound. -/
theorem text_directive_withholds :
    ∃ c, CacheCodec.chat.decodeRequest plainTexts equalFold 150
        (directedChat "text" "text" (.str "hi")) = .ok c ∧ c.Has (.write "") ∧
      (cachePricingRequired (fun _ => true)
        (.value (directedChat "text" "text" (.str "hi")))).write = true ∧
      ∀ out', boundModel ⟨equalFold, fun _ => true⟩ unboundedPlan
          (pricedModel { version := "v", maximumUnitCost := some 5, unitOperation := "generate" })
          (.value (directedChat "text" "text" (.str "hi"))) = .ok out' → out'.maximumCost = none := by
  refine ⟨_, rfl, .inl ⟨_, List.mem_cons_self, .inl ⟨_, rfl, rfl⟩⟩, rfl, fun out' h => ?_⟩
  have hunpriced : (CacheDirective.write "").Unpriced
    { version := "v", maximumUnitCost := some 5, unitOperation := "generate" } := rfl
  have hpriced := directive_priced_iff (fun _ => true) plainTexts .chat 150
    (directedChat "text" "text" (.str "hi")) _ (.write "") rfl
    (.inl ⟨_, List.mem_cons_self, .inl ⟨_, rfl, rfl⟩⟩)
  refine (hpriced.1.2 ⟨rfl, _, rfl, ?_⟩).2 _ _ _ _ rfl hunpriced rfl h
  rw [← CacheDirective.covers_iff_priced]
  exact ⟨rfl, .inr (.inr (.inr ⟨rfl, rfl⟩))⟩

/-- A directive on an image is not seen: the request is accepted with its directive,
nothing is reported, and a price without any rate for the cache bounds its cost. -/
theorem image_directive_bounded :
    ∃ c out', CacheCodec.chat.decodeRequest plainTexts equalFold 150
        (directedChat "image_url" "image_url" (.obj [("url", .str "u")])) = .ok c ∧
      c.Has (.write "") ∧
      (cachePricingRequired (fun _ => true)
        (.value (directedChat "image_url" "image_url" (.obj [("url", .str "u")])))) = {} ∧
      boundModel ⟨equalFold, fun _ => true⟩ unboundedPlan
          (pricedModel { version := "v", maximumUnitCost := some 5, unitOperation := "generate" })
          (.value (directedChat "image_url" "image_url" (.obj [("url", .str "u")]))) = .ok out' ∧
      out'.maximumCost = some 5 := by
  refine ⟨_, _, rfl, .inl ⟨_, List.mem_cons_self, .inl ⟨_, rfl, rfl⟩⟩, rfl, rfl, rfl⟩

end Hoorific
