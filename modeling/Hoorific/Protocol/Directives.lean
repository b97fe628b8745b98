/-
The cache directives of a conversation, and the parts of a body they come
from.  For each codec there is a module that shows where its directives
stand in a body that spells the names of its members exactly.
-/
import Hoorific.Protocol.Requests
import Hoorific.Store.CacheShown

namespace Hoorific.Protocol

open Request Unmarshal

/-! ### Directives of a conversation -/

/-- A block or a tool that directs the cache. -/
def Request.Block.Directed (b : Block) : Prop := b.cacheControl ≠ none ∨ b.cacheBreakpoint = true

def Request.Tool.Directed (t : Request.Tool) : Prop :=
  t.cacheControl ≠ none ∨ t.cacheBreakpoint = true

/-- What the cache of a request asks for by itself. -/
def Request.PromptCache.Asks (p : PromptCache) : CacheNeed → Prop
  | .write => p.control ≠ none ∨ p.mode = "explicit" ∨ p.ttl ≠ ""
  | .read => p.key ≠ "" ∨ p.retention ≠ "" ∨ p.mode ≠ "" ∨ p.cachedContent ≠ ""

/-- What the directives of a conversation ask for: those on blocks and tools
write to the cache. -/
def Request.Conversation.Needs (c : Conversation) : CacheNeed → Prop
  | .write => (∃ b ∈ c.blocks, b.Directed) ∨ (∃ t ∈ c.tools, t.Directed) ∨
      ∃ p, c.cache = some p ∧ p.Asks .write
  | .read => ∃ p, c.cache = some p ∧ p.Asks .read

/-- A part of a message of a body: an object under `content`. -/
def PartOf (key : String) (ms part : List (String × Json)) : Prop :=
  ∃ items message parts, memberOf key ms = some (.arr items) ∧ Json.obj message ∈ items ∧
    memberOf "content" message = some (.arr parts) ∧ Json.obj part ∈ parts

theorem PartOf.shows {key : String} {ms part : List (String × Json)}
    {content parts tool : List (String × Json) → Prop} (h : PartOf key ms part)
    (hkey : key ∈ ["messages", "input", "contents"]) (hshows : content part) :
    PartsShow content parts tool ms := by
  obtain ⟨items, message, ps, hitems, hmessage, hps, hpart⟩ := h
  refine .inl ⟨key, hkey, _, hitems, .item hmessage (.object (.inl ⟨_, hps, ?_⟩))⟩
  exact .item hpart (.block hshows)

theorem cacheStringField_of_member {ms : List (String × Json)} {key s : String}
    (h : memberOf key ms = some (.str s)) : cacheStringField ms key = s := by
  rw [cacheStringField, h]

/-! ### What directs nothing -/

theorem Request.Block.not_directed {x : ContentBlock} : ¬ Block.Directed
    { toContentBlock := x } := by
  rintro (h | h)
  · exact h rfl
  · cases h

/-- A mark of the dialect asks for nothing. -/
theorem Request.PromptCache.not_asks {protocol : String} {need : CacheNeed} :
    ¬ ({ protocol := protocol } : PromptCache).Asks need := by
  intro h
  cases need with
  | write | read => simp [PromptCache.Asks] at h

/-- What the cache of a request asks for stands at the root of its body, if its
texts do. -/
theorem shows_of_asks {ms : List (String × Json)} {p : PromptCache} {need : CacheNeed}
    (hcontrol : p.control = none) (hcached : p.cachedContent = "")
    (hkey : p.key ≠ "" → cacheStringField ms "prompt_cache_key" = p.key)
    (hretention : p.retention ≠ "" → cacheStringField ms "prompt_cache_retention" = p.retention)
    (hoptions : p.mode ≠ "" ∨ p.ttl ≠ "" →
      ∃ options, memberOf "prompt_cache_options" ms = some (.obj options) ∧
        (p.mode ≠ "" → cacheStringField options "mode" = p.mode) ∧
        (p.ttl ≠ "" → cacheStringField options "ttl" = p.ttl))
    (hasks : p.Asks need) : Shows need ms := by
  cases need with
  | write =>
    refine .inr (.inl ?_)
    rcases hasks with hc | hexplicit | httl
    · exact absurd hcontrol hc
    · have hne : p.mode ≠ "" := by
        rw [hexplicit]
        decide
      obtain ⟨options, hmember, htexts, -⟩ := hoptions (.inl hne)
      exact ⟨_, hmember, options, rfl, .inl ((htexts hne).trans hexplicit), trivial⟩
    · obtain ⟨options, hmember, -, htexts⟩ := hoptions (.inr httl)
      refine ⟨_, hmember, options, rfl, .inr ?_, trivial⟩
      rwa [htexts httl]
  | read =>
    rcases hasks with hk | hr | hm | hc
    · refine .inl ⟨"prompt_cache_key", by decide, ?_⟩
      rwa [hkey hk]
    · refine .inl ⟨"prompt_cache_retention", by decide, ?_⟩
      rwa [hretention hr]
    · obtain ⟨options, hmember, htexts, -⟩ := hoptions (.inl hm)
      refine .inr ⟨_, hmember, options, rfl, ?_⟩
      rwa [htexts hm]
    · exact absurd hcached hc

end Hoorific.Protocol
