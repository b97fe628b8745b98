/-
Where the directives of a Converse request stand.  A directive is a cache
point: an object with the member `cachePoint` among the blocks of a message,
of the system text, or among the tools of `toolConfig`.  An object with that
member is always looked at, so in a body that spells its names exactly every
directive is found.
-/
import Hoorific.Protocol.BedrockRequest
import Hoorific.Protocol.Directives

namespace Hoorific.Protocol.BedrockRequest

open Check Request Unmarshal

variable {t : Texts} {ms : List (String × Json)}

/-! ### The fields of the wire, in a body that spells its names exactly -/

theorem holds_request : Holds (requestFields exactly) "system" RequestWire.system
      (structs exactly true {} (blockFields exactly)) ∧
    Holds (requestFields exactly) "messages" RequestWire.messages
      (structs exactly true {} (messageFields exactly)) ∧
    Holds (requestFields exactly) "toolConfig" RequestWire.tools
      (structPointer exactly true {} (toolConfigFields exactly)) := by
  refine ⟨?_, ?_, ?_⟩
  all_goals exact .of rfl (fun _ _ => rfl) (by simp [requestFields])

theorem holds_content : Holds (messageFields exactly) "content" MessageWire.content
    (structs exactly true {} (blockFields exactly)) :=
  .of rfl (fun _ _ => rfl) (by simp [messageFields])

theorem holds_tools : Holds (toolConfigFields exactly) "tools" ToolConfig.tools
    (structs exactly true {} (toolFields exactly)) :=
  .of rfl (fun _ _ => rfl) (by simp [toolConfigFields])

theorem holds_blockPoint : Holds (blockFields exactly) "cachePoint" BlockWire.cachePoint
    (structPointer exactly true {} cachePointFields) :=
  .of rfl (fun _ _ => rfl) (by simp [blockFields])

theorem holds_toolPoint : Holds (toolFields exactly) "cachePoint" ToolWire.cachePoint
    (structPointer exactly true {} cachePointFields) :=
  .of rfl (fun _ _ => rfl) (by simp [toolFields])

/-! ### Sources -/

/-- A directed block is a cache point. -/
theorem decodeBlock_directed {role : Request.Role} {first : Bool} {w : BlockWire} {b : Block}
    (h : decodeBlock t role first w = .ok b) (hdirected : b.Directed) : w.cachePoint ≠ none := by
  unfold decodeBlock at h
  simp only [bind_ok] at h
  obtain ⟨-, -, h⟩ := h
  split at h
  · cases h
    exact absurd hdirected Block.not_directed
  iterate 2
    · simp only [bind_ok, pure_ok] at h
      obtain ⟨_, -, _, -, _, -, rfl⟩ := h
      exact absurd hdirected Block.not_directed
  iterate 2
    · simp only [bind_ok, pure_ok] at h
      obtain ⟨_, -, _, -, rfl⟩ := h
      exact absurd hdirected Block.not_directed
  next hpoint _ _ _ _ _ => simp [hpoint]
  · cases h

theorem decodeBlocks_source {role : Request.Role} {bs : List BlockWire} {out : List Block}
    (h : decodeBlocks t role bs = .ok out) {b : Block} (hb : b ∈ out) (hdirected : b.Directed) :
    ∃ w ∈ bs, w.cachePoint ≠ none := by
  have hall : ∀ b ∈ out, b.Directed → ∃ w ∈ bs, w.cachePoint ≠ none := by
    refine foldlM_ok_inv (fun out => ∀ b ∈ out, b.Directed → ∃ w ∈ bs, w.cachePoint ≠ none) h
      nofun ?_
    intro w hw out out' hout hstep b hb hdirected
    simp only [bind_ok, pure_ok] at hstep
    obtain ⟨x, hx, rfl⟩ := hstep
    rcases List.mem_append.1 hb with hb | hb
    · exact hout b hb hdirected
    · obtain rfl := List.mem_singleton.1 hb
      exact ⟨w, hw, decodeBlock_directed hx hdirected⟩
  exact hall b hb hdirected

theorem addTool_directed {tools tools' : List Request.Tool} {w : ToolWire}
    (h : addTool tools w = .ok tools') {x : Request.Tool} (hx : x ∈ tools')
    (hdirected : x.Directed) :
    (∃ y ∈ tools, y.Directed) ∨ w.cachePoint ≠ none := by
  unfold addTool at h
  split at h
  next hpoint =>
    rw [hpoint]
    exact .inr nofun
  · simp only [bind_ok, pure_ok] at h
    obtain ⟨-, -, -, -, rfl⟩ := h
    rcases List.mem_append.1 hx with hx | hx
    · exact .inl ⟨x, hx, hdirected⟩
    obtain rfl := List.mem_singleton.1 hx
    rcases hdirected with h | h
    · exact absurd rfl h
    · cases h

theorem conversationFromWire_parts {n : RequestWire} {c : Conversation}
    (h : conversationFromWire t n = .ok c) :
    ((∃ b ∈ c.system, b.Directed) → ∃ w ∈ n.system.items, w.cachePoint ≠ none) ∧
    (∀ m ∈ c.messages, (∃ b ∈ m.content, b.Directed) →
      ∃ w ∈ n.messages.items, ∃ x ∈ w.content.items, x.cachePoint ≠ none) ∧
    ((∃ x ∈ c.tools, x.Directed) →
      ∃ config, n.tools = some config ∧ ∃ w ∈ config.tools.items, w.cachePoint ≠ none) ∧
    (∀ p, c.cache = some p → ∀ need, ¬ p.Asks need) := by
  unfold conversationFromWire at h
  simp only [bind_ok, pure_ok] at h
  obtain ⟨system, hsystem, -, -, messages, hmessages, -, -, tools, htools, rfl⟩ := h
  refine ⟨?_, ?_, ?_, ?_⟩
  · rintro ⟨b, hb, hdirected⟩
    exact decodeBlocks_source hsystem hb hdirected
  · rintro m hm ⟨b, hb, hdirected⟩
    obtain ⟨w, hw, hwire⟩ := exists_of_mem_mapM hmessages hm
    simp only [messageFromWire, bind_ok, pure_ok] at hwire
    obtain ⟨-, -, bs, hbs, -, -, rfl⟩ := hwire
    exact ⟨w, hw, decodeBlocks_source hbs hb hdirected⟩
  · rintro ⟨x, hx, hdirected⟩
    have hall : (∃ x ∈ tools, x.Directed) →
        ∃ w ∈ n.tools.elim [] (·.tools.items), w.cachePoint ≠ none := by
      refine foldlM_ok_inv (fun tools => (∃ x ∈ tools, Request.Tool.Directed x) →
        ∃ w ∈ n.tools.elim [] (·.tools.items), w.cachePoint ≠ none) htools ?_ ?_
      · rintro ⟨x, hx, -⟩
        cases hx
      · rintro w hw tools tools' htools hstep ⟨x, hx, hdirected⟩
        rcases addTool_directed hstep hx hdirected with h | h
        · exact htools h
        · exact ⟨w, hw, h⟩
    obtain ⟨w, hw, hpoint⟩ := hall ⟨x, hx, hdirected⟩
    rcases hconfig : n.tools with - | config <;> rw [hconfig] at hw
    · cases hw
    · exact ⟨config, rfl, w, hw, hpoint⟩
  · intro p hp need hasks
    split at hp
    · cases hp
      exact absurd hasks PromptCache.not_asks
    · cases hp

/-- In a body that spells its names exactly, every directive is found. -/
theorem shows_of_exact {size : ℕ} {c : Conversation}
    (h : decodeRequest t exactly size (.obj ms) = .ok c) {need : CacheNeed}
    (hneeds : c.Needs need) :
    Shows need ms := by
  simp only [decodeRequest, wire, bind_ok] at h
  obtain ⟨n, ⟨-, -, hn⟩, hc⟩ := h
  obtain ⟨hscan, hstruct⟩ := scanned_ok.1 hn
  have hreads : Reads (requestFields exactly) {} ms n := ⟨⟨_, hscan⟩, hstruct⟩
  obtain ⟨hsystem, hmessages, htools, hcache⟩ := conversationFromWire_parts hc
  obtain ⟨holdsSystem, holdsMessages, holdsConfig⟩ := holds_request
  -- a cache point among blocks is an object that shows it
  have hblock : ∀ {σ : Type} {fields : List (StructField σ)} {zero s : σ} {get : σ → Slice BlockWire}
      {ms : List (String × Json)} {key : String} {w : BlockWire}, Reads fields zero ms s →
      Holds fields key get (structs exactly true {} (blockFields exactly)) → get zero = {} →
      w ∈ (get s).items → w.cachePoint ≠ none →
      ∃ items, memberOf key ms = some (.arr items) ∧
        InBlocks (ShowsDirective anyTTL) (.arr items) := by
    intro σ fields zero s get ms key w hreads hholds hzero hw hpoint
    obtain ⟨items, block, hv, hmem, hblock⟩ :=
      hreads.item hholds hzero hw fun heq => hpoint (heq ▸ rfl)
    have hmember := hblock.present holds_blockPoint hpoint
    exact ⟨items, hv, .item hmem (.block ⟨.inl hmember, directs_of_point hmember⟩)⟩
  cases need with
  | read =>
    obtain ⟨p, hp, hasks⟩ := hneeds
    exact absurd hasks (hcache p hp .read)
  | write =>
    refine .inr (.inr (.inl ?_))
    rcases hneeds with ⟨b, hb, hdirected⟩ | hdirected | ⟨p, hp, hasks⟩
    · rcases List.mem_append.1 hb with hb | hb
      · -- a block of the system text
        obtain ⟨w, hw, hpoint⟩ := hsystem ⟨b, hb, hdirected⟩
        obtain ⟨items, hv, hshows⟩ := hblock hreads holdsSystem rfl hw hpoint
        exact .inr (.inl ⟨"system", by decide, _, hv, hshows⟩)
      · -- a block of a message
        obtain ⟨m, hm, hb⟩ := List.mem_flatMap.1 hb
        obtain ⟨w, hw, x, hx, hpoint⟩ := hmessages m hm ⟨b, hb, hdirected⟩
        have hne : w ≠ {} := by
          rintro rfl
          cases hx
        obtain ⟨items, message, hv, hmem, hmessage⟩ := hreads.item holdsMessages rfl hw hne
        obtain ⟨parts, hu, hshows⟩ := hblock hmessage holds_content rfl hx hpoint
        exact .inl ⟨"messages", by decide, _, hv, .item hmem (.object (.inl ⟨_, hu, hshows⟩))⟩
    · -- a cache point among the tools
      obtain ⟨config, hconfig, w, hw, hpoint⟩ := htools hdirected
      have hne : config ≠ {} := by
        rintro rfl
        cases hw
      obtain ⟨members, hv, hmembers⟩ := hreads.object holdsConfig rfl hconfig hne
      obtain ⟨items, tool, hu, hmem, htool⟩ :=
        hmembers.item holds_tools rfl hw fun heq => hpoint (heq ▸ rfl)
      refine .inr (.inr (.inr (.inr ⟨_, hv, _, hu, .item hmem (.object ?_)⟩)))
      exact directs_of_point (htool.present holds_toolPoint hpoint)
    · exact absurd hasks (hcache p hp .write)

end Hoorific.Protocol.BedrockRequest
