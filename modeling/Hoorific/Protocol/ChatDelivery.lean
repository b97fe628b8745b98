/-
Streams of the Messages and the Responses protocols for chat clients.  Both
decoders tell the calls of a stream apart by their block; a chat client tells
them apart by the `Tool` part of the index, which both leave at 0.  So a
stream arrives whole if it has at most one call, and only then.

Nothing else stands in the way but the size of a frame: the text of an event
grows when it is written, and the reader refuses more than a megabyte.
-/
import Hoorific.Protocol.Anthropic
import Hoorific.Protocol.ChatReading
import Hoorific.Protocol.Responses

namespace Hoorific.Protocol.Chat

open List

/-! ### The frames of an event -/

def usagesOf (evs : List Event) : List Usage :=
  evs.filterMap fun
    | .usage u => some u
    | _ => none

/-- The identity of a stream. -/
def identityOf : List Event → String × String
  | [] => ("", "")
  | .start id model :: _ => (id, model)
  | _ :: evs => identityOf evs

/-- The frames that carry an event of a stream with this identity and this
usage. -/
def framesFor (id model : String) (usage : Option Usage) : Event → List Frame
  | .start _ _ =>
    [e.choiceFrame "chat.completion.chunk" { index := 0, delta := { role := "assistant" } }]
  | .toolCallStart i id name => [call i id name]
  | .blockStart i .toolCall id name => [call i id name]
  | .textDelta i s => [e.choiceFrame "" { index := i.choice, delta := { content := some s } }]
  | .toolArgumentsDelta i s => [e.callFrame i.choice { index := i.tool, arguments := s }]
  | .finish f =>
    e.choiceFrame "chat.completion.chunk" { index := 0, finishReason := some f.reason } ::
      (({ e with pendingUsage := usage } : Encoder).usageFrames.toOption.getD [] ++ [doneFrame])
  | .streamError err =>
    [errorFrame { code := err.code, message := err.message, param := err.param }]
  | _ => []
where
  e : Encoder := { id := id, model := model }
  call (i : Index) (id name : String) : Frame :=
    e.callFrame 0 { index := i.tool, id := id, type := "function", name := name }

/-- Every event of the stream fits into the frames that carry it. -/
def Fits (evs : List Event) : Prop :=
  ∀ v ∈ evs, ∀ f ∈ framesFor (identityOf evs).1 (identityOf evs).2 (usagesOf evs).head? v,
    f.size ≤ maxEventBytes

variable {evs : List Event} {e' : Encoder} {out : List Frame} {ended ended' : Bool} {v : Event}

theorem frames_of_started {e : Encoder} (hs : e.started = true)
    (hu : e.usage = false → e.pendingUsage = none)
    (h : emitAll Encoder.write e evs = .ok (e', out)) :
    out = evs.flatMap (framesFor e.id e.model (e.pendingUsage.or (usagesOf evs).head?)) := by
  induction evs generalizing e out with
  | nil =>
    cases h
    rfl
  | cons v evs ih =>
    obtain ⟨e₁, frames, rest, hv, hrest, rfl⟩ := emitAll_cons_ok.1 h
    have hw := (Encoder.write_ok hv).2
    cases hw with
    | start hs' => rw [hs] at hs'; cases hs'
    | finish _ _ husage =>
      obtain ⟨rfl, rfl⟩ := eq_nil_of_done rfl hrest
      have hsame : ({ id := e.id, model := e.model, pendingUsage := e.pendingUsage } :
          Encoder).usageFrames = e.usageFrames := rfl
      show _ ++ [] = framesFor e.id e.model (e.pendingUsage.or none) (.finish _) ++ []
      rw [Option.or_none, framesFor, framesFor.e, hsame, husage]
      rfl
    | streamError =>
      obtain ⟨rfl, rfl⟩ := eq_nil_of_done rfl hrest
      rfl
    | usage _ honce =>
      rw [ih (by exact hs) (by exact fun h => Bool.noConfusion h) hrest, hu honce]
      rfl
    | _ =>
      rw [ih (by exact hs) (by exact hu) hrest]
      rfl

theorem fits_iff (h : emitAll Encoder.write {} evs = .ok (e', out)) :
    (∀ f ∈ out, f.size ≤ maxEventBytes) ↔ Fits evs := by
  suffices hout : out = evs.flatMap
      (framesFor (identityOf evs).1 (identityOf evs).2 (usagesOf evs).head?) by
    rw [hout]
    simp only [mem_flatMap, forall_exists_index, and_imp]
    exact forall_comm.trans (forall_congr' fun v => ⟨fun h hv f hf => h f hv hf,
      fun h f hv hf => h hv f hf⟩)
  cases evs with
  | nil =>
    cases h
    rfl
  | cons v evs =>
    obtain ⟨e₁, frames, rest, hv, hrest, rfl⟩ := emitAll_cons_ok.1 h
    cases (Encoder.write_ok hv).2 with
    | @start id model =>
      rw [frames_of_started (by rfl) (by exact fun _ => rfl) hrest]
      rfl
    | streamError =>
      obtain ⟨rfl, rfl⟩ := eq_nil_of_done rfl hrest
      rfl
    | toolCallStart hs | textStart hs | callStart hs | usage hs | finish hs => cases hs
    | textDelta hopen | arguments hopen | textEnd hopen | callEnd hopen => cases hopen

instance (evs : List Event) : Decidable (Fits evs) :=
  inferInstanceAs (Decidable (∀ v ∈ evs, ∀ f ∈ framesFor _ _ _ v, f.size ≤ maxEventBytes))

/-! ### What the two decoders return -/

/-- Events that can be followed through their translation. -/
structure Translatable (evs : List Event) : Prop where
  flat : ∀ v ∈ evs, Flat v
  counted : ∀ v ∈ evs, Counted v
  ends : ∃ v ∈ evs, Terminal v

theorem counted_of_sound {u : Usage} (h : Sound u) : Counted (.usage u) :=
  (forall_counts_iff.1 h.counts).2

/-- The events of a stream so far: the end of the stream is among them when the
decoder says so. -/
structure Safe (ended : Bool) (evs : List Event) : Prop where
  flat : ∀ v ∈ evs, Flat v
  counted : ∀ v ∈ evs, Counted v
  ends : ended = true → ∃ v ∈ evs, Terminal v

theorem Safe.append {out : List Event} (h : Safe ended evs) (hflat : ∀ v ∈ out, Flat v)
    (hcounted : ∀ v ∈ out, Counted v) (hends : ended' = true → ended = true ∨ ∃ v ∈ out, Terminal v)
    : Safe ended' (evs ++ out) where
  flat v hv := (mem_append.1 hv).elim (h.flat v) (hflat v)
  counted v hv := (mem_append.1 hv).elim (h.counted v) (hcounted v)
  ends hended := by
    rcases hends hended with hold | ⟨v, hv, hterm⟩
    · obtain ⟨v, hv, hterm⟩ := h.ends hold
      exact ⟨v, mem_append_left _ hv, hterm⟩
    · exact ⟨v, mem_append_right _ hv, hterm⟩

theorem Safe.snoc (h : Safe ended evs) (hflat : Flat v) (hcounted : Counted v) :
    Safe ended (evs ++ [v]) :=
  h.append (fun w hw => by rwa [mem_singleton.1 hw]) (fun w hw => by rwa [mem_singleton.1 hw]) .inl

theorem Safe.last (h : Safe ended evs) (hflat : Flat v) (hcounted : Counted v) (hterm : Terminal v)
    : Safe ended' (evs ++ [v]) :=
  h.append (fun w hw => by rwa [mem_singleton.1 hw]) (fun w hw => by rwa [mem_singleton.1 hw])
    fun _ => .inr ⟨v, mem_singleton.2 rfl, hterm⟩

theorem safe_nil (ended : Bool) (h : ended = false) : Safe ended [] :=
  ⟨fun _ hv => absurd hv not_mem_nil, fun _ hv => absurd hv not_mem_nil,
    fun hended => absurd hended (by simp [h])⟩

theorem safe_anthropic {d d' : Anthropic.Decoder} {out : List Event} (h : d.Yields d' out)
    (hsafe : Safe (d.finished || d.terminal) evs) (hint : int64s d.usage.counters = true) :
    Safe (d'.finished || d'.terminal) (evs ++ out) ∧ int64s d'.usage.counters = true := by
  cases h with
  | @start id model usage husage =>
    cases usage with
    | none => exact ⟨hsafe.snoc trivial trivial, hint⟩
    | some w => exact ⟨hsafe.snoc trivial trivial, Anthropic.int64s_mergeUsageWire hint husage⟩
  | blockStart hkind =>
    refine ⟨hsafe.snoc ?_ trivial, hint⟩
    rcases hkind with rfl | rfl <;> trivial
  | toolCallStart => exact ⟨hsafe.snoc rfl trivial, hint⟩
  | textDelta | arguments | blockEnd => exact ⟨hsafe.snoc trivial trivial, hint⟩
  | usage hw hu =>
    have hmerged := Anthropic.int64s_mergeUsageWire hint hw
    have hsound := Anthropic.usageFromWire_sound hmerged hu
    exact ⟨hsafe.snoc trivial (counted_of_sound hsound), hmerged⟩
  | finish | error => exact ⟨hsafe.last trivial trivial trivial, hint⟩
  | @usageFinish w u reason status hw hu =>
    have hmerged := Anthropic.int64s_mergeUsageWire hint hw
    have hsound := Anthropic.usageFromWire_sound hmerged hu
    have hsafe₁ := hsafe.snoc (v := .usage u) trivial (counted_of_sound hsound)
    refine ⟨?_, hmerged⟩
    rw [append_cons]
    exact hsafe₁.last trivial trivial trivial
  | messageStop hf =>
    rw [append_nil]
    exact ⟨{ hsafe with ends := fun _ => hsafe.ends (by rw [hf]; rfl) }, hint⟩

theorem translatable_of_anthropic {input : List Anthropic.Frame}
    (h : Pulls Anthropic.decoder.next ⟨{}, [], input⟩ evs) : Translatable evs := by
  obtain ⟨l, rfl, hdec⟩ := Feeder.pulls_iff_decodes.1 h
  obtain ⟨d, ⟨hsafe, -⟩, hend⟩ := hdec.inv
    (fun d evs => Safe (d.finished || d.terminal) evs ∧ int64s d.usage.counters = true)
    (fun d f d' out evs hI hfeed =>
      safe_anthropic (Anthropic.Decoder.yields_of_feed hfeed) hI.1 hI.2)
    (fun d d' out evs _ hclose => nomatch hclose) [] ⟨safe_nil _ rfl, rfl⟩
  refine ⟨hsafe.flat, hsafe.counted, hsafe.ends ?_⟩
  -- the input of this decoder has no other end than the end of the message
  rcases hend with hterminal | ⟨d', hclose⟩
  · rw [show d.terminal = true from hterminal, Bool.or_true]
  · cases hclose

theorem safe_responses {d d' : Responses.Decoder} {out : List Event} (h : d.Yields d' out)
    (hsafe : Safe d.ended evs) : Safe d'.ended (evs ++ out) := by
  cases h with
  | nothing => rwa [append_nil]
  | error | finish => exact hsafe.last trivial trivial trivial
  | start | message | textDelta | arguments | itemDone => exact hsafe.snoc trivial trivial
  | @call index id name arguments =>
    have hsafe₁ := hsafe.snoc (v := .toolCallStart { block := index } id name) rfl trivial
    rw [append_cons, Responses.Decoder.firstArguments]
    split
    · rwa [append_nil]
    · exact hsafe₁.snoc trivial trivial
  | usage hu => exact hsafe.snoc trivial (counted_of_sound hu)
  | @usageFinish u f hu =>
    have hsafe₁ := hsafe.snoc (v := .usage u) trivial (counted_of_sound hu)
    rw [append_cons]
    exact hsafe₁.last trivial trivial trivial

theorem translatable_of_responses {input : List Responses.Frame}
    (h : Pulls Responses.decoder.next ⟨{}, [], input⟩ evs) : Translatable evs := by
  obtain ⟨l, rfl, hdec⟩ := Feeder.pulls_iff_decodes.1 h
  obtain ⟨d, hsafe, hend⟩ := hdec.inv (fun d evs => Safe d.ended evs)
    (fun d f d' out evs hI hfeed => safe_responses (Responses.Decoder.yields_of_feed hfeed) hI)
    (fun d d' out evs hI hclose => by
      obtain ⟨-, -, heq⟩ := Check.bind_ok.1 (show Responses.Decoder.close d = _ from hclose)
      cases heq
      rwa [append_nil]) [] (safe_nil _ rfl)
  refine ⟨hsafe.flat, hsafe.counted, hsafe.ends ?_⟩
  rcases hend with hstopped | ⟨d', hclose⟩
  · cases hstopped
  · obtain ⟨_, hended, -⟩ := Check.bind_ok.1 (show Responses.Decoder.close d = _ from hclose)
    exact Check.require_ok.1 hended

/-! ### Tool calls for chat clients -/

/-- The frames can be read, with the text, the calls and the finish of the
events. -/
def Survives (evs : List Event) (out : List Frame) : Prop :=
  ∃ evs', Pulls decoder.next ⟨{}, [], out⟩ evs' ∧ textOf evs' = textOf evs ∧
    callsOf evs' = callsOf evs ∧
    (finishesOf evs').map Finish.reason = (finishesOf evs).map Finish.reason

theorem length_callsOf (evs : List Event) :
    (callsOf evs).length = (evs.foldl Event.callsAfter []).length := by
  rw [callsOf, length_map, length_reverse]

/-- Calls that survive are at most one: on the wire they all have the index 0. -/
theorem length_le_of_survives (h : Translatable evs)
    (hwrite : emitAll Encoder.write {} evs = .ok (e', out)) (hsurvives : Survives evs out) :
    (callsOf evs).length ≤ 1 ∧ ∀ f ∈ out, f.size ≤ maxEventBytes := by
  obtain ⟨evs', hpulls, -, hcalls, -⟩ := hsurvives
  obtain ⟨l, rfl, hdec⟩ := Feeder.pulls_iff_decodes.1 hpulls
  have hflat : FlatTools {} := fun i hi => absurd hi (Finset.notMem_empty i)
  obtain ⟨pre, f, rfl, hpre, hf⟩ := last_of_emitAll hwrite h.flat hflat h.ends
  have hone : AtMostOne {} [] := ⟨rfl, .inl rfl⟩
  obtain ⟨hfits, hlen⟩ := atMostOne_of_decodes hpre hf hone hdec
  refine ⟨?_, hfits⟩
  rw [← hcalls, length_callsOf]
  exact hlen

theorem survives_of_length_le (h : Translatable evs)
    (hwrite : emitAll Encoder.write {} evs = .ok (e', out)) (hone : (callsOf evs).length ≤ 1)
    (hfits : ∀ f ∈ out, f.size ≤ maxEventBytes) :
    Survives evs out := by
  rw [length_callsOf] at hone
  have hfollows : Follows {} {} :=
    { encoder_open := ⟨rfl, rfl⟩
      decoder_open := ⟨rfl, rfl⟩
      no_finish := rfl
      started := rfl
      id_eq := rfl
      model_eq := rfl
      anonymous := fun _ => ⟨rfl, rfl⟩
      text_index := fun i hi => absurd hi (Finset.notMem_empty i)
      tools_index := fun i hi => absurd hi (Finset.notMem_empty i)
      counted := fun u hu => nomatch hu }
  have hcalls : Calls {} {} [] [] := .none rfl rfl
  obtain ⟨evs', hdec, htext, hsame, hreasons⟩ :=
    exists_decodes hfollows hcalls hwrite h.flat h.counted h.ends hone hfits
  refine ⟨evs', Feeder.pulls_iff_decodes.2 ⟨evs', rfl, hdec⟩, htext, ?_, hreasons⟩
  rw [callsOf, callsOf, map_reverse, map_reverse, hsame]

/-- **Tool calls for chat clients.**  A stream that one of the two decoders
reads and the encoder accepts arrives whole exactly if it starts at most one
call and its events fit into the reader's frames: every call has the index 0
on the wire, so that a second one is taken for the first. -/
theorem tool_calls_survive_iff {evs : List Event} {e' : Encoder} {out : List Frame}
    (hread : (∃ input, Pulls Anthropic.decoder.next ⟨{}, [], input⟩ evs) ∨
      ∃ input, Pulls Responses.decoder.next ⟨{}, [], input⟩ evs)
    (hwrite : emitAll Encoder.write {} evs = .ok (e', out)) :
    Survives evs out ↔ (callsOf evs).length ≤ 1 ∧ Fits evs := by
  have h : Translatable evs := by
    rcases hread with ⟨input, hread⟩ | ⟨input, hread⟩
    · exact translatable_of_anthropic hread
    · exact translatable_of_responses hread
  rw [← fits_iff hwrite]
  constructor
  · exact length_le_of_survives h hwrite
  · rintro ⟨hone, hfits⟩
    exact survives_of_length_le h hwrite hone hfits

/-- A message with a text and the calls. -/
def callTurn (calls : List Anthropic.Frame) : List Anthropic.Frame :=
  [.messageStart (.ok { type := "message_start", id := "msg_1", model := "claude" }),
    .contentBlockStart (.ok { index := 0, type := "text" }),
    .contentBlockDelta (.ok 0) (.ok { type := "text_delta", text := "Let me see." }),
    .contentBlockStop (.ok 0)] ++
  (calls ++
    [.messageDelta (.ok ⟨some "tool_use", none, some { input := some 9, output := some 4 }⟩),
      .messageStop])

/-- The frames of a call. -/
def callFrames (index : Int) (id name : String) : List Anthropic.Frame :=
  [.contentBlockStart (.ok { index := index, type := "tool_use", id := id, name := name }),
    .contentBlockDelta (.ok index) (.ok { type := "input_json_delta", partialJSON := "\x7b\x7d" }),
    .contentBlockStop (.ok index)]

/-- The events of a call. -/
def callEvents (index : Int) (id name : String) : List Event :=
  [.toolCallStart { block := index } id name, .toolArgumentsDelta { block := index } "\x7b\x7d",
    .blockEnd { block := index }]

def turnEvents (calls : List Event) : List Event :=
  [.start "msg_1" "claude", .blockStart { block := 0 } .text "" "",
    .textDelta { block := 0 } "Let me see.", .blockEnd { block := 0 }] ++
  (calls ++
    [.usage { input := some 9, output := some 4, total := some 13, source := "anthropic" },
      .finish { status := "completed", reason := "tool_calls" }])

theorem exists_ok_of_isOk {ε α : Type} {m : Except ε α} (h : m.isOk = true) : ∃ a, m = .ok a := by
  rcases m with e | a
  · cases h
  · exact ⟨a, rfl⟩

/-- One call arrives. -/
theorem one_call_survives : ∃ e' out,
    emitAll Encoder.write {} (turnEvents (callEvents 1 "toolu_1" "weather")) = .ok (e', out) ∧
      Survives (turnEvents (callEvents 1 "toolu_1" "weather")) out := by
  obtain ⟨⟨e', out⟩, hwrite⟩ := exists_ok_of_isOk
    (m := emitAll Encoder.write {} (turnEvents (callEvents 1 "toolu_1" "weather")))
    (by decide +kernel)
  have hread : Anthropic.decoder.readAll {} (callTurn (callFrames 1 "toolu_1" "weather")) =
      some (turnEvents (callEvents 1 "toolu_1" "weather")) := by decide +kernel
  have hpulls := Feeder.pulls_of_readAll hread
  exact ⟨e', out, hwrite, (tool_calls_survive_iff (.inl ⟨_, hpulls⟩) hwrite).2
    ⟨by decide, by decide +kernel⟩⟩

/-- Two calls do not: the encoder accepts them, and what it writes has one. -/
theorem two_calls_do_not_survive : ∃ (input : List Anthropic.Frame) (evs : List Event)
    (e' : Encoder) (out : List Frame), Pulls Anthropic.decoder.next ⟨{}, [], input⟩ evs ∧
      emitAll Encoder.write {} evs = .ok (e', out) ∧ ¬Survives evs out := by
  let calls := callEvents 1 "toolu_1" "weather" ++ callEvents 2 "toolu_2" "time"
  have hread : Anthropic.decoder.readAll {}
      (callTurn (callFrames 1 "toolu_1" "weather" ++ callFrames 2 "toolu_2" "time")) =
      some (turnEvents calls) := by decide +kernel
  obtain ⟨⟨e', out⟩, hwrite⟩ := exists_ok_of_isOk
    (m := emitAll Encoder.write {} (turnEvents calls)) (by decide +kernel)
  have hpulls := Feeder.pulls_of_readAll hread
  refine ⟨_, _, e', out, hpulls, hwrite, fun hsurvives => ?_⟩
  have hlen := (length_le_of_survives (translatable_of_anthropic hpulls) hwrite hsurvives).1
  exact absurd hlen (by decide)

end Hoorific.Protocol.Chat
