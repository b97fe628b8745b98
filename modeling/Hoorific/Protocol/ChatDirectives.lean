/-
Where the directives of a chat request stand.  Every directive of the
conversation comes from a member of the body: that of a part, a tool or the
options of the request.  If the body spells its names exactly, the member
has the name that is looked for; but a directive on an image or a file
stands on a part of a type that is not looked at (`HidesDirective`).
-/
import Hoorific.Protocol.ChatRequest
import Hoorific.Protocol.Directives

namespace Hoorific.Protocol.ChatRequest

open Check Request Unmarshal

/-! ### Sources -/

variable {t : Texts} {spelling : Spelling}

variable {b : Block} {m : WireMessage} {conv conv' : Conversation} {need : CacheNeed}

/-- The directives of a block are those of its part. -/
theorem blockFromPart_directs {p : ContentPart} (h : blockFromPart t p = .ok b) :
    b.cacheControl = p.cacheControl ∧
      (b.cacheBreakpoint = true → p.type = "text" ∧ p.promptCacheBreakpoint ≠ none) ∧
      (p.type = "text" ∨ p.type = "image_url" ∨ p.type = "file") := by
  unfold blockFromPart at h
  simp only [bind_ok] at h
  obtain ⟨cache, hcache, breakpoint, hbreakpoint, h⟩ := h
  have hsame : cache = p.cacheControl := by
    simp only [cacheControlFromWire, bind_ok, pure_ok] at hcache
    exact hcache.choose_spec.2.symm
  split at h
  next htype =>
    simp only [bind_ok, pure_ok] at h
    obtain ⟨-, -, rfl⟩ := h
    refine ⟨hsame, fun hb => ⟨htype, ?_⟩, .inl htype⟩
    rintro heq
    rw [heq] at hbreakpoint
    cases hbreakpoint
    cases hb
  next htype =>
    split at h
    · cases h
    simp only [bind_ok, pure_ok] at h
    obtain ⟨-, -, -, -, -, -, rfl⟩ := h
    exact ⟨hsame, by rintro ⟨⟩, .inr (.inl htype)⟩
  next htype =>
    split at h
    · cases h
    simp only [bind_ok, pure_ok] at h
    obtain ⟨-, -, -, -, rfl⟩ := h
    exact ⟨hsame, by rintro ⟨⟩, .inr (.inr htype)⟩
  next => cases h

/-- A directed block comes from a part of the content. -/
theorem blocksFromContent_source {content : Option Json} {allowNull : Bool} {bs : List Block}
    (h : blocksFromContent t spelling content allowNull = .ok bs) (hb : b ∈ bs)
    (hdirected : b.Directed) :
    ∃ v parts, content = some v ∧
      structs spelling true {} (contentPartFields spelling) {} v = .ok parts ∧
      ∃ p ∈ parts.items, blockFromPart t p = .ok b := by
  unfold blocksFromContent at h
  split at h
  · split at h
    · cases h
      cases hb
    · cases h
  · split at h
    · cases h
      cases hb
    · cases h
  · cases h
    rw [List.mem_singleton] at hb
    exact absurd (hb ▸ hdirected) Block.not_directed
  · obtain ⟨parts, hparts, hblocks⟩ := bind_ok.1 h
    exact ⟨_, parts, rfl, (scanned_ok.1 hparts).2, exists_of_mem_mapM hblocks hb⟩

/-- A directed block of a message comes from a part of its content. -/
theorem messageFromWire_source {cm : Message} (h : messageFromWire t spelling m = .ok cm)
    (hb : b ∈ cm.content) (hdirected : b.Directed) :
    ∃ allowNull bs b', blocksFromContent t spelling m.content allowNull = .ok bs ∧ b' ∈ bs ∧
      b'.cacheControl = b.cacheControl ∧ b'.cacheBreakpoint = b.cacheBreakpoint := by
  unfold messageFromWire at h
  simp only [bind_ok] at h
  obtain ⟨-, -, -, -, h⟩ := h
  split at h
  · simp only [bind_ok, pure_ok] at h
    obtain ⟨bs, hbs, rfl⟩ := h
    exact ⟨_, bs, b, hbs, hb, rfl, rfl⟩
  · simp only [bind_ok, pure_ok] at h
    obtain ⟨bs, hbs, -, -, rfl⟩ := h
    exact ⟨_, bs, b, hbs, hb, rfl, rfl⟩
  · simp only [bind_ok, pure_ok] at h
    obtain ⟨bs, hbs, calls, hcalls, -, -, rfl⟩ := h
    rcases List.mem_append.1 hb with hb | hb
    · exact ⟨_, bs, b, hbs, hb, rfl, rfl⟩
    -- a call has no directive
    obtain ⟨tc, -, htc⟩ := exists_of_mem_mapM hcalls hb
    simp only [callBlock, bind_ok, pure_ok] at htc
    obtain ⟨-, -, -, -, rfl⟩ := htc
    exact absurd hdirected Block.not_directed
  · simp only [bind_ok, pure_ok] at h
    obtain ⟨-, -, bs, hbs, results, hresults, rfl⟩ := h
    obtain ⟨b', hb', hresult⟩ := exists_of_mem_mapM hresults hb
    simp only [resultBlock, bind_ok, pure_ok] at hresult
    obtain ⟨-, -, rfl⟩ := hresult
    exact ⟨_, bs, b', hbs, hb', rfl, rfl⟩
  · cases h

theorem addMessage_parts (h : addMessage t spelling conv m = .ok conv') :
    (∀ b ∈ conv'.blocks,
      b ∈ conv.blocks ∨ ∃ cm, messageFromWire t spelling m = .ok cm ∧ b ∈ cm.content) ∧
      conv'.cache = conv.cache := by
  unfold addMessage at h
  obtain ⟨cm, hcm, h⟩ := bind_ok.1 h
  split at h
  · simp only [bind_ok, pure_ok] at h
    obtain ⟨-, -, rfl⟩ := h
    refine ⟨fun b hb => ?_, rfl⟩
    simp only [Conversation.blocks, List.mem_append] at hb ⊢
    rcases hb with (hb | hb) | hb
    · exact .inl (.inl hb)
    · exact .inr ⟨cm, hcm, hb⟩
    · exact .inl (.inr hb)
  · simp only [pure_ok] at h
    obtain rfl := h
    refine ⟨fun b hb => ?_, rfl⟩
    simp only [Conversation.blocks, List.mem_append, List.flatMap_append, List.flatMap_cons,
      List.flatMap_nil, List.append_nil] at hb ⊢
    rcases hb with hb | hb | hb
    · exact .inl (.inl hb)
    · exact .inl (.inr hb)
    · exact .inr ⟨cm, hcm, hb⟩

/-- What a conversation is made of: blocks of messages, tools, and the cache of
the request. -/
theorem conversationFromWire_parts {q : WireRequest}
    (h : conversationFromWire t spelling q = .ok conv) :
    (∀ b ∈ conv.blocks, ∃ m ∈ q.messages.items, ∃ cm, messageFromWire t spelling m = .ok cm ∧
      b ∈ cm.content) ∧
    (∀ x ∈ conv.tools, ∃ w ∈ q.tools.items, toolFromWire w = .ok x) ∧
    promptCacheFromWire q = .ok conv.cache := by
  unfold conversationFromWire at h
  simp only [bind_ok] at h
  obtain ⟨-, -, -, -, -, -, cache, hcache, -, -, conv₁, hconv₁, tools, htools, stop, -, h⟩ := h
  obtain ⟨hblocks, hkept⟩ : (∀ b ∈ conv₁.blocks, ∃ m ∈ q.messages.items, ∃ cm,
      messageFromWire t spelling m = .ok cm ∧ b ∈ cm.content) ∧ conv₁.cache = cache := by
    refine foldlM_ok_inv (fun c => (∀ b ∈ c.blocks, ∃ m ∈ q.messages.items, ∃ cm,
      messageFromWire t spelling m = .ok cm ∧ b ∈ cm.content) ∧ c.cache = cache) hconv₁ ?_ ?_
    · exact ⟨fun b hb => (by cases hb), rfl⟩
    · rintro m hm c c' ⟨hc, hcache⟩ hstep
      obtain ⟨hadded, hsame⟩ := addMessage_parts hstep
      refine ⟨fun b hb => ?_, hsame.trans hcache⟩
      rcases hadded b hb with hb | ⟨cm, hcm, hb⟩
      · exact hc b hb
      · exact ⟨m, hm, cm, hcm, hb⟩
  have htool : ∀ x ∈ tools, ∃ w ∈ q.tools.items, toolFromWire w = .ok x :=
    fun x hx => exists_of_mem_mapM htools hx
  split at h
  · simp only [pure_ok] at h
    obtain rfl := h
    exact ⟨hblocks, htool, hkept ▸ hcache⟩
  · simp only [bind_ok, pure_ok] at h
    obtain ⟨s, -, rfl⟩ := h
    exact ⟨hblocks, htool, hkept ▸ hcache⟩

/-- Marking the dialect changes the protocol of the cache only. -/
theorem markDecodedCache_asks (conv : Conversation) (need : CacheNeed) :
    ((markDecodedCache conv).blocks = conv.blocks ∧ (markDecodedCache conv).tools = conv.tools) ∧
      ((∃ p, (markDecodedCache conv).cache = some p ∧ p.Asks need) →
        ∃ p, conv.cache = some p ∧ p.Asks need) := by
  unfold markDecodedCache
  simp only
  split
  · exact ⟨⟨rfl, rfl⟩, id⟩
  refine ⟨⟨rfl, rfl⟩, ?_⟩
  rintro ⟨p, hp, hasks⟩
  rw [Option.some.injEq] at hp
  rcases hcache : conv.cache with - | cache
  · -- a mark asks for nothing
    rw [hcache] at hp
    split at hp
    · exact absurd (hp ▸ hasks) PromptCache.not_asks
    · split at hp <;> exact absurd (hp ▸ hasks) PromptCache.not_asks
  · refine ⟨cache, rfl, ?_⟩
    rw [hcache] at hp
    split at hp
    · subst hp
      cases need <;> exact hasks
    split at hp <;> subst hp
    · cases need <;> exact hasks
    · exact hasks

/-! ### The fields of the wire, in a body that spells its names exactly -/

theorem holds_request (fits : Json → Bool) :
    Holds (requestFields exactly fits) "messages" WireRequest.messages
      (structs exactly true {} (messageFields exactly)) ∧
    Holds (requestFields exactly fits) "tools" WireRequest.tools
      (structs exactly true {} (toolFields exactly)) ∧
    Holds (requestFields exactly fits) "prompt_cache_key" WireRequest.promptCacheKey string ∧
    Holds (requestFields exactly fits) "prompt_cache_retention" WireRequest.promptCacheRetention
      string ∧
    Holds (requestFields exactly fits) "prompt_cache_options" WireRequest.promptCacheOptions
      (structPointer exactly true {} promptCacheOptionsFields) := by
  refine ⟨?_, ?_, ?_, ?_, ?_⟩
  all_goals exact .of rfl (fun _ _ => rfl) (by simp [requestFields])

theorem holds_content : Holds (messageFields exactly) "content" WireMessage.content raw :=
  .of rfl (fun _ _ => rfl) (by simp [messageFields])

theorem holds_part : Holds (contentPartFields exactly) "type" ContentPart.type string ∧
    Holds (contentPartFields exactly) "cache_control" ContentPart.cacheControl
      (structPointer exactly true {} cacheControlFields) ∧
    Holds (contentPartFields exactly) "prompt_cache_breakpoint" ContentPart.promptCacheBreakpoint
      (structPointer exactly true {} cacheBreakpointFields) := by
  refine ⟨?_, ?_, ?_⟩
  all_goals exact .of rfl (fun _ _ => rfl) (by simp [contentPartFields])

theorem holds_toolControl : Holds (toolFields exactly) "cache_control" WireTool.cacheControl
    (structPointer exactly true {} cacheControlFields) :=
  .of rfl (fun _ _ => rfl) (by simp [toolFields])

theorem holds_options : Holds promptCacheOptionsFields "mode" PromptCacheOptions.mode string ∧
    Holds promptCacheOptionsFields "ttl" PromptCacheOptions.ttl string := by
  refine ⟨?_, ?_⟩
  all_goals exact .of rfl (fun _ _ => rfl) (by simp [promptCacheOptionsFields])

/-! ### Members -/

section Members

variable {fits : Json → Bool} {ms : List (String × Json)} {q : WireRequest} {conv : Conversation}

/-- A directed block of a conversation comes from a part of the body. -/
theorem part_of_block (h : Reads (requestFields exactly fits) {} ms q)
    (hconv : conversationFromWire t exactly q = .ok conv) (hb : b ∈ conv.blocks)
    (hdirected : b.Directed) :
    ∃ part type, PartOf "messages" ms part ∧ memberOf "type" part = some (.str type) ∧
      (type = "text" ∨ type = "image_url" ∨ type = "file") ∧
      ((memberOf "cache_control" part).isSome ∨
        type = "text" ∧ (memberOf "prompt_cache_breakpoint" part).isSome) := by
  obtain ⟨m, hm, cm, hcm, hbcm⟩ := (conversationFromWire_parts hconv).1 b hb
  obtain ⟨allowNull, bs, b', hbs, hb', hcontrol, hbreakpoint⟩ :=
    messageFromWire_source hcm hbcm hdirected
  have hdirected' : b'.Directed := by rwa [Request.Block.Directed, hcontrol, hbreakpoint]
  obtain ⟨v, parts, hv, hparts, p, hp, hblock⟩ := blocksFromContent_source hbs hb' hdirected'
  obtain ⟨hsame, hpoint, htype⟩ := blockFromPart_directs hblock
  have hm' : m ≠ {} := by
    rintro rfl
    cases hv
  obtain ⟨items, message, hitems, hmessage, hreads⟩ := h.item (holds_request fits).1 rfl hm hm'
  obtain ⟨hcontent, depth, hscan⟩ := hreads.kept holds_content rfl hv
  obtain ⟨ps, rfl, x, hx, hstruct⟩ := mem_slice hparts hp
  have hne : p.type ≠ "" := by
    rintro heq
    rw [heq] at htype
    revert htype
    decide
  obtain ⟨part, rfl, hpart⟩ := Reads.of_struct (scan_of_mem_items hscan hx) hstruct fun heq => hne (heq ▸ rfl)
  refine ⟨part, p.type, ⟨items, message, ps, hitems, hmessage, hcontent, hx⟩,
    hpart.text holds_part.1 hne, htype, ?_⟩
  rcases hdirected' with hcache | hmark
  · exact .inl (hpart.present holds_part.2.1 (hsame ▸ hcache))
  · exact .inr ⟨(hpoint hmark).1, hpart.present holds_part.2.2 (hpoint hmark).2⟩

/-- The parts whose directives are not looked at. -/
def HidesDirective (ms : List (String × Json)) : Prop :=
  ∃ part, PartOf "messages" ms part ∧
    cacheStringField part "type" ∈ ["image_url", "file"] ∧ (memberOf "cache_control" part).isSome

variable {w : WireTool} {p : PromptCache}

theorem toolFromWire_directed {x : Request.Tool} (h : toolFromWire w = .ok x)
    (hdirected : x.Directed) : w.cacheControl ≠ none := by
  simp only [toolFromWire, cacheControlFromWire, bind_ok, pure_ok] at h
  obtain ⟨-, -, -, -, -, -, _, ⟨-, -, rfl⟩, rfl⟩ := h
  rcases hdirected with h | h
  · exact h
  · cases h

/-- A directed tool is an object of the body with its directive. -/
theorem tool_members (h : Reads (requestFields exactly fits) {} ms q) (hw : w ∈ q.tools.items)
    (hcontrol : w.cacheControl ≠ none) :
    MemberShows (InList (Directs anyTTL)) "tools" ms := by
  obtain ⟨items, tool, hitems, htool, hreads⟩ :=
    h.item (holds_request fits).2.1 rfl hw fun heq => hcontrol (heq ▸ rfl)
  exact ⟨_, hitems, .item htool (.object (directs_of_control
    (hreads.present holds_toolControl hcontrol)))⟩

theorem promptCacheFromWire_some (h : promptCacheFromWire q = .ok (some p)) :
    p.control = none ∧ p.cachedContent = "" ∧ p.key = q.promptCacheKey ∧
      p.retention = q.promptCacheRetention ∧ p.mode = q.promptCacheOptions.elim "" (·.mode) ∧
      p.ttl = q.promptCacheOptions.elim "" (·.ttl) := by
  unfold promptCacheFromWire at h
  split at h
  · cases h
  simp only [bind_ok, pure_ok, Option.some.injEq] at h
  obtain ⟨-, -, rfl⟩ := h
  exact ⟨rfl, rfl, rfl, rfl, rfl, rfl⟩

/-- What the cache of a request asks for stands at the root of its body. -/
theorem root_shows (h : Reads (requestFields exactly fits) {} ms q)
    (hp : promptCacheFromWire q = .ok (some p)) (hasks : p.Asks need) :
    Shows need ms := by
  obtain ⟨hcontrol, hcached, hkey, hretention, hmode, httl⟩ := promptCacheFromWire_some hp
  obtain ⟨-, -, holdsKey, holdsRetention, holdsOptions⟩ := holds_request fits
  refine shows_of_asks hcontrol hcached (fun hk => ?_) (fun hr => ?_) (fun htexts => ?_) hasks
  · rw [hkey] at hk ⊢
    exact cacheStringField_of_member (h.text holdsKey hk)
  · rw [hretention] at hr ⊢
    exact cacheStringField_of_member (h.text holdsRetention hr)
  · -- options that say something are an object of the body
    rcases ho : q.promptCacheOptions with - | o <;> rw [ho] at hmode httl
    · rcases htexts with h | h
      · exact absurd hmode h
      · exact absurd httl h
    have hne : o ≠ {} := by
      rintro rfl
      rcases htexts with h | h
      · exact h hmode
      · exact h httl
    obtain ⟨options, hmember, hreads⟩ := h.object holdsOptions rfl ho hne
    rw [hmode, httl]
    exact ⟨options, hmember, fun hm => cacheStringField_of_member (hreads.text holds_options.1 hm),
      fun ht => cacheStringField_of_member (hreads.text holds_options.2 ht)⟩

end Members

/-- In a body that spells its names exactly and has no directive on an
image or a file, every directive is found. -/
theorem shows_of_exact {size : ℕ} {ms : List (String × Json)} {c : Conversation}
    (h : decodeRequest t exactly size (.obj ms) = .ok c) (hneeds : c.Needs need)
    (hhides : ¬ HidesDirective ms) : Shows need ms := by
  simp only [decodeRequest, wire, bind_ok, pure_ok] at h
  obtain ⟨q, ⟨-, -, hq⟩, conv, hconv, -, -, rfl⟩ := h
  obtain ⟨hscan, hstruct⟩ := scanned_ok.1 hq
  have hreads : Reads (requestFields exactly t.fits) {} ms q := ⟨⟨_, hscan⟩, hstruct⟩
  obtain ⟨hblocks, htools, hcache⟩ := conversationFromWire_parts hconv
  have hroot : (∃ p, conv.cache = some p ∧ p.Asks need) → Shows need ms := by
    rintro ⟨p, hp, hasks⟩
    exact root_shows hreads (hp ▸ hcache) hasks
  obtain ⟨⟨hsameblocks, hsametools⟩, hasks⟩ := markDecodedCache_asks conv need
  cases need with
  | read => exact hroot (hasks hneeds)
  | write =>
    rcases hneeds with ⟨b, hb, hdirected⟩ | ⟨x, hx, hdirected⟩ | hown
    · rw [hsameblocks] at hb
      obtain ⟨part, type, hpart, htype, hkinds, hmember⟩ := part_of_block hreads hconv hb hdirected
      have hfield := cacheStringField_of_member htype
      have htext : type = "text" := by
        rcases hmember with hcc | ⟨htext, -⟩
        · rcases hkinds with rfl | rfl | rfl
          · rfl
          · exact absurd ⟨part, hpart, by rw [hfield]; decide, hcc⟩ hhides
          · exact absurd ⟨part, hpart, by rw [hfield]; decide, hcc⟩ hhides
        · exact htext
      subst htext
      rcases hmember with hcc | ⟨-, hbp⟩
      · refine .inr (.inr (.inl (hpart.shows (by decide) ⟨.inr ?_, directs_of_control hcc⟩)))
        rw [hfield]
        decide
      · exact .inr (.inr (.inr ⟨hpart.shows (by decide) ⟨.inl hfield, hbp⟩, trivial⟩))
    · rw [hsametools] at hx
      obtain ⟨w, hw, htool⟩ := htools x hx
      refine .inr (.inr (.inl (.inr (.inr (.inr (.inl ?_))))))
      exact tool_members hreads hw (toolFromWire_directed htool hdirected)
    · exact hroot (hasks hown)

end Hoorific.Protocol.ChatRequest
