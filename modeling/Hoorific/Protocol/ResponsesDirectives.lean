/-
Where the directives of a Responses request stand: breakpoints on the texts
of messages, and the members of the root.  The codec looks for members under
their exact names, as the search does; but a breakpoint on a part of the type
`output_text` stands on a part that is not looked at (`HidesBreakpoint`).
-/
import Hoorific.Protocol.Directives
import Hoorific.Protocol.ResponsesRequest

namespace Hoorific.Protocol.ResponsesRequest

open Check Request Unmarshal

variable {t : Texts} {ms : List (String × Json)} {o : Members} {α : Type} {k : String} {b : Block}
  {need : CacheNeed}

/-! ### Members -/

theorem map_ok {v : Json} (h : map none v = .ok (some o)) : v = .obj o := by
  cases v with
  | obj ms =>
    cases h
    rfl
  | null | bool | int | real | str | arr => cases h

theorem obj_ok {b : Json} (h : obj b = .ok o) : b = .obj o := by
  unfold obj at h
  obtain ⟨m, hm, h⟩ := bind_ok.1 h
  split at h
  · cases h
  · cases h
    exact map_ok (scanned_ok.1 hm).2

theorem get?_some {into : Into α} {zero a : α} (h : get? into zero o k = .ok (some a)) :
    ∃ v, memberOf k o = some v ∧ into zero v = .ok a := by
  unfold get? at h
  split at h
  · cases h
  · cases h
  next v _ hv =>
    refine ⟨v, hv, ?_⟩
    rcases hinto : into zero v with e | b <;> rw [hinto] at h
    · cases h
    · cases h
      rfl

theorem get_ok {into : Into α} {zero a : α} (h : get into zero o k = .ok a) :
    ∃ v, memberOf k o = some v ∧ into zero v = .ok a := by
  unfold get at h
  obtain ⟨r, hr, h⟩ := bind_ok.1 h
  split at h
  · cases h
  · cases h
    exact get?_some hr

theorem oneOf_text {allowed : String → Bool} {param s : String}
    (h : oneOf allowed o k param = .ok s) (hs : s ≠ "") : cacheStringField o k = s := by
  unfold oneOf at h
  obtain ⟨r, hr, h⟩ := bind_ok.1 h
  split at h
  · cases h
    exact absurd rfl hs
  simp only [bind_ok, pure_ok] at h
  obtain ⟨-, -, rfl⟩ := h
  obtain ⟨v, hv, hinto⟩ := get?_some hr
  obtain rfl := string_of_ne hinto hs
  exact cacheStringField_of_member hv

/-! ### Blocks -/

/-- A directed block is a text with a breakpoint. -/
theorem parseContent_directed {v : Members} (h : parseContent t v = .ok b)
    (hdirected : b.Directed) :
    (cacheStringField v "type" = "input_text" ∨ cacheStringField v "type" = "output_text") ∧
      (memberOf "prompt_cache_breakpoint" v).isSome := by
  -- a text with a breakpoint has the member
  have hmember : ∀ {breakpoint : Bool} {s : String}, contentMetadata v = .ok breakpoint →
      Request.Block.Directed { kind := .text, text := s, cacheBreakpoint := breakpoint } →
        (memberOf "prompt_cache_breakpoint" v).isSome := by
    intro breakpoint s hmeta hdirected
    simp only [contentMetadata, bind_ok] at hmeta
    obtain ⟨-, -, hmeta⟩ := hmeta
    split at hmeta
    · cases hmeta
      exact absurd hdirected Block.not_directed
    next raw hraw =>
      rw [hraw]
      rfl
  unfold parseContent at h
  obtain ⟨type, htype, h⟩ := bind_ok.1 h
  obtain ⟨w, hw, hinto⟩ := get_ok htype
  have hfield : type ≠ "" → cacheStringField v "type" = type := by
    intro hne
    obtain rfl := string_of_ne hinto hne
    exact cacheStringField_of_member hw
  split at h
  · simp only [bind_ok, pure_ok] at h
    obtain ⟨_, -, breakpoint, hmeta, s, -, rfl⟩ := h
    exact ⟨.inl (hfield (by decide)), hmember hmeta hdirected⟩
  · simp only [bind_ok, pure_ok] at h
    obtain ⟨_, -, breakpoint, hmeta, s, -, rfl⟩ := h
    exact ⟨.inr (hfield (by decide)), hmember hmeta hdirected⟩
  · simp only [bind_ok, pure_ok] at h
    obtain ⟨_, -, _, -, _, -, _, -, rfl⟩ := h
    exact absurd hdirected Block.not_directed
  · simp only [bind_ok, fileBlock] at h
    obtain ⟨_, -, _, -, _, -, h⟩ := h
    split at h
    · cases h
      exact absurd hdirected Block.not_directed
    split at h
    · cases h
      exact absurd hdirected Block.not_directed
    · cases h
  · cases h

/-- A directed block of a message is a part of the item. -/
theorem parseItem_directed {x : Json} {m : Message} (h : parseItem t x = .ok m) (hb : b ∈ m.content)
    (hdirected : b.Directed) :
    ∃ message parts part, x = .obj message ∧ memberOf "content" message = some (.arr parts) ∧
      Json.obj part ∈ parts ∧
      (cacheStringField part "type" = "input_text" ∨ cacheStringField part "type" = "output_text") ∧
      (memberOf "prompt_cache_breakpoint" part).isSome := by
  unfold parseItem at h
  obtain ⟨o, ho, hitem⟩ := bind_ok.1 h
  obtain rfl := obj_ok ho
  split at hitem <;> simp only [bind_ok, pure_ok] at hitem
  · obtain ⟨_, -, _, -, _, -, _, -, rfl⟩ := hitem
    rw [List.mem_singleton] at hb
    exact absurd (hb ▸ hdirected) Block.not_directed
  · obtain ⟨_, -, _, -, _, -, rfl⟩ := hitem
    rw [List.mem_singleton] at hb
    exact absurd (hb ▸ hdirected) Block.not_directed
  obtain ⟨_, -, _, -, _, -, _, -, cs, hcs, content, hcontent, rfl⟩ := hitem
  obtain ⟨cb, hcb, hparse⟩ := exists_of_mem_mapM hcontent hb
  obtain ⟨co, hco, hpart⟩ := bind_ok.1 hparse
  obtain rfl := obj_ok hco
  obtain ⟨v, hv, hinto⟩ := get_ok hcs
  obtain rfl := arr_of_mem_raws hinto hcb
  exact ⟨o, cs, co, rfl, hv, hcb, parseContent_directed hpart hdirected⟩

/-! ### Requests -/

/-- The parts whose breakpoints are not looked at. -/
def HidesBreakpoint (ms : List (String × Json)) : Prop :=
  ∃ part, PartOf "input" ms part ∧ cacheStringField part "type" = "output_text" ∧
    (memberOf "prompt_cache_breakpoint" part).isSome

theorem promptCacheFromObject_some {p : PromptCache} (h : promptCacheFromObject ms = .ok (some p))
    (hasks : p.Asks need) :
    Shows need ms := by
  unfold promptCacheFromObject at h
  split at h
  · cases h
  simp only [bind_ok, pure_ok, Option.some.injEq] at h
  obtain ⟨key, hkey, retention, hretention, ⟨mode, ttl⟩, hoptions, _, -, rfl⟩ := h
  refine shows_of_asks rfl rfl (oneOf_text hkey) (oneOf_text hretention) (fun htexts => ?_) hasks
  unfold optionsFromObject at hoptions
  split at hoptions
  · cases hoptions
    rcases htexts with h | h <;> exact absurd rfl h
  next options hmember =>
    simp only [bind_ok, pure_ok, Prod.mk.injEq] at hoptions
    obtain ⟨_, -, mode', hmode, ttl', httl, rfl, rfl⟩ := hoptions
    exact ⟨options, hmember, oneOf_text hmode, oneOf_text httl⟩
  · cases hoptions
  · cases hoptions

theorem conversationFromObject_parts {q : Conversation} (h : conversationFromObject t ms = .ok q) :
    (∀ b ∈ q.blocks, ∃ input msgs m, memberOf "input" ms = some input ∧
      parseInput t input = .ok msgs ∧ m ∈ msgs ∧ b ∈ m.content) ∧
    (∀ x ∈ q.tools, ¬ x.Directed) ∧ promptCacheFromObject ms = .ok q.cache := by
  unfold conversationFromObject at h
  simp only [bind_ok] at h
  obtain ⟨_, -, _, -, cache, hcache, _, -, _, -, _, -, h⟩ := h
  split at h
  · cases h
  next input hinput =>
    simp only [bind_ok, pure_ok] at h
    obtain ⟨msgs, hmsgs, _, -, _, -, tools, htools, _, -, rfl⟩ := h
    refine ⟨?_, ?_, hcache⟩
    · intro b hb
      rcases List.mem_append.1 hb with hb | hb
      all_goals
        obtain ⟨m, hm, hb⟩ := List.mem_flatMap.1 hb
        exact ⟨input, msgs, m, hinput, hmsgs, List.mem_of_mem_filter hm, hb⟩
    · intro x hx hdirected
      unfold toolsFromObject at htools
      split at htools
      · cases htools
        cases hx
      · cases htools
        cases hx
      · obtain ⟨-, -, htools⟩ := bind_ok.1 htools
        obtain ⟨y, -, htool⟩ := exists_of_mem_mapM htools hx
        unfold toolFromObject at htool
        split at htool
        · simp only [bind_ok, pure_ok] at htool
          obtain ⟨_, -, _, -, _, -, rfl⟩ := htool
          rcases hdirected with h | h
          · exact h rfl
          · cases h
        · cases htool
        · cases htool
      · cases htools

/-- Marking a conversation adds a cache that asks for nothing. -/
theorem markDecodedCache_asks (q : Conversation) (need : CacheNeed) :
    ((markDecodedCache q).blocks = q.blocks ∧ (markDecodedCache q).tools = q.tools) ∧
      ((∃ p, (markDecodedCache q).cache = some p ∧ p.Asks need) →
        ∃ p, q.cache = some p ∧ p.Asks need) := by
  unfold markDecodedCache
  split
  · refine ⟨⟨rfl, rfl⟩, ?_⟩
    rintro ⟨p, hp, hasks⟩
    cases hp
    exact absurd hasks PromptCache.not_asks
  · exact ⟨⟨rfl, rfl⟩, id⟩

/-- In a body that has no breakpoint on the text of an output, every directive is
found. -/
theorem shows_of_listed {size : ℕ} {c : Conversation} (h : decodeRequest t size (.obj ms) = .ok c)
    (hneeds : c.Needs need) (hhides : ¬ HidesBreakpoint ms) : Shows need ms := by
  simp only [decodeRequest, wire, bind_ok, pure_ok] at h
  obtain ⟨m, ⟨_, -, r, hr, hm⟩, q, hq, _, -, rfl⟩ := h
  have hsame : m = ms := by
    split at hm
    · cases hm
    · cases hm
      exact (Json.obj.inj (map_ok (scanned_ok.1 hr).2)).symm
  subst hsame
  obtain ⟨hblocks, htools, hcache⟩ := conversationFromObject_parts hq
  have hroot : (∃ p, q.cache = some p ∧ p.Asks need) → Shows need m := by
    rintro ⟨p, hp, hasks⟩
    exact promptCacheFromObject_some (hp ▸ hcache) hasks
  obtain ⟨⟨hsameblocks, hsametools⟩, hasks⟩ := markDecodedCache_asks q need
  cases need with
  | read => exact hroot (hasks hneeds)
  | write =>
    rcases hneeds with ⟨b, hb, hdirected⟩ | ⟨x, hx, hdirected⟩ | hown
    · rw [hsameblocks] at hb
      obtain ⟨input, msgs, msg, hinput, hmsgs, hmsg, hb⟩ := hblocks b hb
      refine .inr (.inr (.inr ⟨?_, trivial⟩))
      unfold parseInput at hmsgs
      split at hmsgs
      next items hitems =>
        obtain ⟨x, hx, hitem⟩ := exists_of_mem_mapM hmsgs hmsg
        obtain ⟨message, parts, part, rfl, hcontent, hpart, htype, hmember⟩ :=
          parseItem_directed hitem hb hdirected
        obtain rfl := arr_of_mem_raws (scanned_ok.1 hitems).2 hx
        have hpartof : PartOf "input" m part := ⟨items, message, parts, hinput, hx, hcontent, hpart⟩
        rcases htype with htype | htype
        · exact hpartof.shows (by decide) ⟨.inr htype, hmember⟩
        · exact absurd ⟨part, hpartof, htype, hmember⟩ hhides
      · split at hmsgs
        · cases hmsgs
          obtain rfl := List.mem_singleton.1 hmsg
          rw [List.mem_singleton] at hb
          exact absurd (hb ▸ hdirected) Block.not_directed
        · cases hmsgs
    · exact absurd hdirected (htools x (hsametools ▸ hx))
    · exact hroot (hasks hown)

end Hoorific.Protocol.ResponsesRequest
