/-
Where the directives of a Messages request stand.  A directive is a member
`cache_control` of a block, of a tool or of the request, and every type of
block that the codec accepts is looked at; so in a body that spells its names
exactly every directive is found.
-/
import Hoorific.Protocol.AnthropicRequest
import Hoorific.Protocol.Directives

namespace Hoorific.Protocol.AnthropicRequest

open Check Request Unmarshal

variable {t : Texts} {ms : List (String × Json)} {path : String}
  {own : List (StructField BlockWire)} {v : Json} {x : BlockWire} {b : Block} {c : Conversation}

theorem cacheControlFromWire_ok {v cc : Option CacheControl}
    (h : cacheControlFromWire v path = .ok cc) : cc = v := by
  unfold cacheControlFromWire at h
  split at h
  · cases h
    rfl
  simp only [bind_ok, pure_ok] at h
  obtain ⟨-, -, rfl⟩ := h
  rfl

/-! ### The fields of the wire, in a body that spells its names exactly -/

theorem holds_request : Holds (requestFields exactly) "system" RequestWire.system raw ∧
    Holds (requestFields exactly) "messages" RequestWire.messages
      (structs exactly true {} messageFields) ∧
    Holds (requestFields exactly) "tools" RequestWire.tools
      (structs exactly true {} (toolFields exactly)) ∧
    Holds (requestFields exactly) "cache_control" RequestWire.cacheControl
      (structPointer exactly true {} cacheControlFields) := by
  refine ⟨?_, ?_, ?_, ?_⟩
  all_goals exact .of rfl (fun _ _ => rfl) (by simp [requestFields])

theorem holds_content : Holds messageFields "content" MessageWire.content raw :=
  .of rfl (fun _ _ => rfl) (by simp [messageFields])

theorem holds_toolControl : Holds (toolFields exactly) "cache_control" ToolWire.cacheControl
    (structPointer exactly true {} cacheControlFields) :=
  .of rfl (fun _ _ => rfl) (by simp [toolFields])

/-- The fields of a block of some type: those of every block, and others that are
written elsewhere. -/
theorem holds_blockControl (hown : Leaves own "cache_control" BlockWire.cacheControl) :
    Holds (commonFields exactly ++ own) "cache_control" BlockWire.cacheControl
      (structPointer exactly true {} cacheControlFields) :=
  .of rfl (fun _ _ => rfl) (by simpa [commonFields] using hown)

/-! ### Blocks -/

/-- A block with a directive of a listed type. -/
theorem control_member {type : String} (hown : Leaves own "cache_control" BlockWire.cacheControl)
    (htype : blockType v = .ok type) (hlisted : type ∈ cacheBlockTypes)
    (hx : strict (struct exactly true (commonFields exactly ++ own)) {} v = .ok x)
    (hne : x.cacheControl ≠ none) : ∃ block, v = .obj block ∧ ShowsDirective anyTTL block := by
  obtain ⟨hscan, hstruct⟩ := scanned_ok.1 hx
  obtain ⟨block, rfl, hblock⟩ := Reads.of_struct hscan hstruct fun heq => hne (heq ▸ rfl)
  refine ⟨block, rfl, .inr ?_, directs_of_control (hblock.present (holds_blockControl hown) hne)⟩
  -- the type is the member of that name
  simp only [blockType, bind_ok] at htype
  obtain ⟨m, hm, htype⟩ := htype
  cases (scanned_ok.1 hm).2
  split at htype
  · cases htype
  next w hw =>
    split at htype
    next s hs =>
      cases htype
      have hne : type ≠ "" := by
        rintro rfl
        exact absurd hlisted (by decide)
      obtain rfl := string_of_ne (scanned_ok.1 hs).2 hne
      have hmember : memberOf "type" block = some (.str type) := hw
      rwa [cacheStringField_of_member hmember]
    · cases htype

theorem mediaBlock_control {kind : BlockKind} (h : mediaBlock t kind x path = .ok b) :
    b.cacheControl = x.cacheControl ∧ b.cacheBreakpoint = false := by
  unfold mediaBlock at h
  obtain ⟨cc, hcc, h⟩ := bind_ok.1 h
  obtain rfl := cacheControlFromWire_ok hcc
  repeat' split at h
  all_goals cases h <;> exact ⟨rfl, rfl⟩

theorem toolUseBlock_control (h : toolUseBlock t x path = .ok b) :
    b.cacheControl = x.cacheControl ∧ b.cacheBreakpoint = false := by
  unfold toolUseBlock at h
  split at h
  · cases h
  simp only [bind_ok, pure_ok] at h
  obtain ⟨-, -, -, -, cc, hcc, rfl⟩ := h
  exact ⟨cacheControlFromWire_ok hcc, rfl⟩

/-- A directed block is an object that shows its directive. -/
theorem block_shows {fuel : ℕ} (h : blockFromRaw t exactly fuel v path = .ok b)
    (hdirected : b.Directed) :
    ∃ block, v = .obj block ∧ ShowsDirective anyTTL block := by
  cases fuel with
  | zero => cases h
  | succ fuel =>
    rw [blockFromRaw] at h
    obtain ⟨type, htype, h⟩ := bind_ok.1 h
    -- every type has its own fields beside the directive
    have hshows : ∀ {own : List (StructField BlockWire)} {x : BlockWire},
        strict (struct exactly true (commonFields exactly ++ own)) {} v = .ok x →
        Leaves own "cache_control" BlockWire.cacheControl → type ∈ cacheBlockTypes →
        b.cacheControl = x.cacheControl ∧ b.cacheBreakpoint = false →
        ∃ block, v = .obj block ∧ ShowsDirective anyTTL block := by
      intro own x hx hown hlisted hsame
      refine control_member hown htype hlisted hx ?_
      rcases hdirected with h | h
      · rwa [← hsame.1]
      · rw [hsame.2] at h
        cases h
    split at h
    · cases h
    -- texts
    iterate 2
      · obtain ⟨x, hx, h⟩ := bind_ok.1 h
        refine hshows hx (by simp) (by decide) ?_
        split at h
        · cases h
        simp only [bind_ok, pure_ok] at h
        obtain ⟨cc, hcc, rfl⟩ := h
        exact ⟨cacheControlFromWire_ok hcc, rfl⟩
    -- images and documents
    iterate 2
      · obtain ⟨x, hx, h⟩ := bind_ok.1 h
        exact hshows hx (by simp) (by decide) (mediaBlock_control h)
    · obtain ⟨x, hx, h⟩ := bind_ok.1 h
      exact hshows hx (by simp) (by decide) (toolUseBlock_control h)
    · obtain ⟨x, hx, h⟩ := bind_ok.1 h
      refine hshows hx (by simp) (by decide) ?_
      simp only [bind_ok, pure_ok] at h
      obtain ⟨-, -, -, -, cc, hcc, rfl⟩ := h
      exact ⟨cacheControlFromWire_ok hcc, rfl⟩
    · cases h

/-- A directed block of a list shows its directive in the list. -/
theorem blocks_show {raw : Json} {bs : List Block}
    (h : blocksFromJSON t exactly (some raw) path = .ok bs) (hb : b ∈ bs) (hdirected : b.Directed) :
    ∃ items, raw = .arr items ∧ InBlocks (ShowsDirective anyTTL) raw := by
  unfold blocksFromJSON at h
  simp only at h
  split at h
  · cases h
    rw [List.mem_singleton] at hb
    exact absurd (hb ▸ hdirected) Block.not_directed
  obtain ⟨blocks, hblocks, hmap⟩ := bind_ok.1 h
  obtain ⟨x, hx, hblock⟩ := exists_of_mem_mapM hmap hb
  obtain ⟨block, hobj, hshows⟩ := block_shows hblock hdirected
  have hmem : x.1 ∈ blocks := List.fst_mem_of_mem_zipIdx hx
  obtain rfl := arr_of_mem_raws (scanned_ok.1 hblocks).2 hmem
  exact ⟨_, rfl, .item hmem (hobj ▸ .block hshows)⟩

/-! ### Requests -/

theorem toolFromWire_control {w : ToolWire} {i : ℕ} {x : Request.Tool}
    (h : toolFromWire w i = .ok x)
    (hdirected : x.Directed) : w.cacheControl ≠ none := by
  simp only [toolFromWire, bind_ok, pure_ok] at h
  obtain ⟨-, -, -, -, cc, hcc, rfl⟩ := h
  rcases hdirected with h | h
  · exact cacheControlFromWire_ok hcc ▸ h
  · cases h

theorem conversationFromWire_parts {a : RequestWire}
    (h : conversationFromWire t exactly a = .ok c) :
    (∀ b ∈ c.system, ∃ raw path bs, a.system = some raw ∧
      blocksFromJSON t exactly (some raw) path = .ok bs ∧ b ∈ bs) ∧
    (∀ m ∈ c.messages, ∃ w ∈ a.messages.items, ∃ path,
      blocksFromJSON t exactly w.content path = .ok m.content) ∧
    (∀ x ∈ c.tools, ∃ w ∈ a.tools.items, ∃ i, toolFromWire w i = .ok x) ∧
    (∀ p, c.cache = some p → p.control = a.cacheControl ∧ ¬ p.Asks .read ∧ p.mode = "" ∧ p.ttl = "") := by
  unfold conversationFromWire at h
  simp only [bind_ok] at h
  obtain ⟨-, -, -, -, -, -, cc, hcc, system, hsystem, messages, hmessages, tools, htools, h⟩ := h
  have hsource : ∀ b ∈ system, ∃ raw path bs, a.system = some raw ∧
      blocksFromJSON t exactly (some raw) path = .ok bs ∧ b ∈ bs := by
    intro b hb
    rcases hraw : a.system with - | raw <;> rw [hraw] at hsystem
    · cases hsystem
      cases hb
    · exact ⟨raw, _, system, rfl, hsystem, hb⟩
  have hmessage : ∀ m ∈ messages, ∃ w ∈ a.messages.items, ∃ path,
      blocksFromJSON t exactly w.content path = .ok m.content := by
    intro m hm
    obtain ⟨x, hx, hx'⟩ := exists_of_mem_mapM hmessages hm
    simp only [messageFromWire, bind_ok, pure_ok] at hx'
    obtain ⟨-, -, bs, hbs, rfl⟩ := hx'
    exact ⟨x.1, List.fst_mem_of_mem_zipIdx hx, _, hbs⟩
  have htool : ∀ x ∈ tools, ∃ w ∈ a.tools.items, ∃ i, toolFromWire w i = .ok x := by
    intro x hx
    obtain ⟨w, hw, hw'⟩ := exists_of_mem_mapM htools hx
    exact ⟨w.1, List.fst_mem_of_mem_zipIdx hw, _, hw'⟩
  obtain rfl := cacheControlFromWire_ok hcc
  have hcache : ∀ (c : Conversation) (p : PromptCache), cacheFromWire a.cacheControl c = some p →
      p.control = a.cacheControl ∧ ¬ p.Asks .read ∧ p.mode = "" ∧ p.ttl = "" := by
    intro c p hp
    unfold cacheFromWire at hp
    split at hp
    · cases hp
      exact ⟨rfl, by simp [PromptCache.Asks], rfl, rfl⟩
    · cases hp
  split at h
  · cases h
    exact ⟨hsource, hmessage, htool, hcache _⟩
  simp only [bind_ok, pure_ok] at h
  obtain ⟨-, -, rfl⟩ := h
  exact ⟨hsource, hmessage, htool, hcache _⟩

/-- In a body that spells its names exactly, every directive is found. -/
theorem shows_of_exact {size : ℕ} (h : decodeRequest t exactly size (.obj ms) = .ok c)
    {need : CacheNeed} (hneeds : c.Needs need) :
    Shows need ms := by
  simp only [decodeRequest, wire, bind_ok] at h
  obtain ⟨a, ⟨-, -, ha⟩, hc⟩ := h
  obtain ⟨hscan, hstruct⟩ := scanned_ok.1 ha
  have hreads : Reads (requestFields exactly) {} ms a := ⟨⟨_, hscan⟩, hstruct⟩
  obtain ⟨hsystem, hmessages, htools, hcache⟩ := conversationFromWire_parts hc
  obtain ⟨holdsSystem, holdsMessages, holdsTools, holdsControl⟩ := holds_request
  cases need with
  | read =>
    obtain ⟨p, hp, hasks⟩ := hneeds
    exact absurd hasks (hcache p hp).2.1
  | write =>
    rcases hneeds with ⟨b, hb, hdirected⟩ | ⟨x, hx, hdirected⟩ | ⟨p, hp, hasks⟩
    · refine .inr (.inr (.inl ?_))
      rcases List.mem_append.1 hb with hb | hb
      · -- a block of the system text
        obtain ⟨raw, path, bs, hraw, hbs, hb⟩ := hsystem b hb
        obtain ⟨items, rfl, hshows⟩ := blocks_show hbs hb hdirected
        exact .inr (.inl ⟨"system", by decide, _, (hreads.kept holdsSystem rfl hraw).1, hshows⟩)
      · -- a block of a message
        obtain ⟨m, hm, hb⟩ := List.mem_flatMap.1 hb
        obtain ⟨w, hw, path, hbs⟩ := hmessages m hm
        rcases hraw : w.content with - | raw <;> rw [hraw] at hbs
        · cases hbs
        obtain ⟨-, -, hshows⟩ := blocks_show hbs hb hdirected
        have hne : w ≠ {} := by
          rintro rfl
          cases hraw
        obtain ⟨items, message, hv, hmem, hmessage⟩ := hreads.item holdsMessages rfl hw hne
        exact .inl ⟨"messages", by decide, _, hv,
          .item hmem (.object (.inl ⟨raw, (hmessage.kept holds_content rfl hraw).1, hshows⟩))⟩
    · obtain ⟨w, hw, i, htool⟩ := htools x hx
      refine .inr (.inr (.inl (.inr (.inr (.inr (.inl ?_))))))
      have hne := toolFromWire_control htool hdirected
      obtain ⟨items, tool, hv, hmem, hwire⟩ :=
        hreads.item holdsTools rfl hw fun heq => hne (heq ▸ rfl)
      exact ⟨_, hv, .item hmem (.object (directs_of_control (hwire.present holds_toolControl hne)))⟩
    · obtain ⟨hcontrol, -, hmode, httl⟩ := hcache p hp
      rcases hasks with hc | hm | ht
      · rw [hcontrol] at hc
        obtain ⟨v, hv⟩ := Option.isSome_iff_exists.1 (hreads.present holdsControl hc)
        exact .inl ⟨v, hv, trivial⟩
      · rw [hmode] at hm
        exact absurd hm (by decide)
      · exact absurd httl ht

end Hoorific.Protocol.AnthropicRequest
