/-
What a chat client can read of the frames the encoder writes.  Every part of
a call that is written has the index 0, and the decoder starts a call only
for an index it has not seen: so at most one call is read
(`atMostOne_of_decodes`).
-/
import Hoorific.Protocol.ChatTranslation

namespace Hoorific.Protocol.Chat

open List Check

/-! ### What can be read of the frames -/

/-- A frame of the encoder before the last one: a chunk with at most one choice,
whose calls have the index 0. -/
def Plain (f : Frame) : Prop :=
  ∃ x : Chunk, f.body = .chunk (.ok x) ∧
    (x.choices = [] ∨ ∃ ch, x.choices = [ch] ∧ ∀ tc ∈ ch.delta.toolCalls, tc.index = 0)

/-- The last frame of the encoder. -/
def Last (f : Frame) : Prop := f.body = .done ∨ ∃ payload, f.body = .error payload

variable {e e' : Encoder} {ch : Choice} {tc : CallDelta} {v : Event} {frames : List Frame}
  {evs : List Event} {d d' : Decoder} {c' : List ToolCall} {x : Chunk} {f : Frame}

theorem plain_choiceFrame {object : String} (h : ∀ tc ∈ ch.delta.toolCalls, tc.index = 0) :
    Plain (e.choiceFrame object ch) :=
  ⟨_, rfl, .inr ⟨ch, rfl, h⟩⟩

theorem plain_callFrame {choice : Int} (h : tc.index = 0) : Plain (e.callFrame choice tc) :=
  plain_choiceFrame fun _ htc => by rw [mem_singleton.1 htc, h]

/-- The open calls of the encoder have no number of their own. -/
def FlatTools (e : Encoder) : Prop := ∀ i ∈ e.tools, i.tool = 0

theorem flatTools_of_writes (h : e.Writes v e' frames) (hflat : Flat v) (hF : FlatTools e) :
    FlatTools e' := by
  cases h with
  | toolCallStart | callStart => exact Finset.forall_mem_insert _ _ _ |>.2 ⟨hflat, hF⟩
  | callEnd => exact fun j hj => hF j (Finset.mem_of_mem_erase hj)
  | _ => exact hF

theorem plain_of_writes (h : e.Writes v e' frames) (hflat : Flat v) (hF : FlatTools e)
    (hgoes : ¬Terminal v) :
    ∀ f ∈ frames, Plain f := by
  intro f hf
  cases h with
  | start | textDelta =>
    rw [mem_singleton.1 hf]
    exact plain_choiceFrame fun tc htc => absurd htc not_mem_nil
  | toolCallStart | callStart =>
    rw [mem_singleton.1 hf]
    exact plain_callFrame hflat
  | arguments hopen =>
    rw [mem_singleton.1 hf]
    exact plain_callFrame (hF _ hopen)
  | finish | streamError => exact absurd trivial hgoes
  | _ => cases hf

/-- The frames of the last event end with the last frame. -/
theorem last_of_writes (h : e.Writes v e' frames) (hlast : Terminal v) :
    ∃ pre f, frames = pre ++ [f] ∧ (∀ g ∈ pre, Plain g) ∧ Last f := by
  cases h with
  | @finish f usage _ _ husage =>
    refine ⟨_ :: usage, doneFrame, rfl, ?_, .inl rfl⟩
    intro g hg
    rcases mem_cons.1 hg with rfl | hg
    · exact plain_choiceFrame fun tc htc => absurd htc not_mem_nil
    rw [Encoder.usageFrames] at husage
    split at husage
    · cases husage
      cases hg
    simp only [bind_ok, pure_ok] at husage
    obtain ⟨w, -, rfl⟩ := husage
    rw [mem_singleton.1 hg]
    exact ⟨_, rfl, .inl rfl⟩
  | streamError => exact ⟨[], _, rfl, fun g hg => absurd hg not_mem_nil, .inr ⟨_, rfl⟩⟩
  | _ => exact hlast.elim

theorem last_of_emitAll {out : List Frame} (h : emitAll Encoder.write e evs = .ok (e', out))
    (hflat : ∀ v ∈ evs, Flat v) (hF : FlatTools e) (hlast : ∃ v ∈ evs, Terminal v) :
    ∃ pre f, out = pre ++ [f] ∧ (∀ g ∈ pre, Plain g) ∧ Last f := by
  induction evs generalizing e out with
  | nil =>
    obtain ⟨v, hv, -⟩ := hlast
    cases hv
  | cons v evs ih =>
    obtain ⟨e₁, frames, rest, hv, hrest, rfl⟩ := emitAll_cons_ok.1 h
    have hw := (Encoder.write_ok hv).2
    have hflat₁ := hflat v mem_cons_self
    by_cases hterminal : Terminal v
    · obtain ⟨rfl, rfl⟩ := eq_nil_of_done (done_of_terminal hw hterminal) hrest
      rw [append_nil]
      exact last_of_writes hw hterminal
    have hlater := ((exists_mem_cons_iff _ _ _).1 hlast).resolve_left hterminal
    obtain ⟨pre, f, rfl, hpre, hf⟩ := ih hrest (fun w hw => hflat w (mem_cons_of_mem v hw))
      (flatTools_of_writes hw hflat₁ hF) hlater
    refine ⟨frames ++ pre, f, (append_assoc _ _ _).symm, ?_, hf⟩
    intro g hg
    exact (mem_append.1 hg).elim (plain_of_writes hw hflat₁ hF hterminal g) (hpre g)

/-- The reading goes on, and if a call has been read, another one cannot start. -/
def AtMostOne (d : Decoder) (c' : List ToolCall) : Prop :=
  d.done = false ∧
    (c' = [] ∨ c'.length = 1 ∧ (d.finished = true ∨ (d.tools.lookup 0).isSome = true))

theorem AtMostOne.length_le (h : AtMostOne d c') : c'.length ≤ 1 := by
  rcases h with ⟨-, rfl | ⟨h, -⟩⟩
  · exact Nat.zero_le 1
  · exact h.le

/-- The decoder is the same as far as the calls are concerned. -/
structure Alike (d d' : Decoder) : Prop where
  done : d'.done = d.done
  finished : d'.finished = d.finished
  tools : d'.tools = d.tools

theorem AtMostOne.of_alike (h : AtMostOne d c') (hd : Alike d d')
    (hcalls : evs.foldl Event.callsAfter c' = c') :
    AtMostOne d' (evs.foldl Event.callsAfter c') := by
  rw [hcalls, AtMostOne, hd.done, hd.finished, hd.tools]
  exact h

theorem atMostOne_call (hopen : d.finished = false) (hzero : tc.index = 0) (h : AtMostOne d c')
    (hcall : d.call tc = .ok (d', evs)) :
    d'.finished = false ∧ AtMostOne d' (evs.foldl Event.callsAfter c') := by
  rw [Decoder.call, hzero] at hcall
  simp only [bind_ok, require_ok] at hcall
  obtain ⟨-, -, -, -, hcall⟩ := hcall
  have hfragment : ∀ (i : Index) (c : List ToolCall),
      ((Decoder.argumentEvents i tc.arguments).foldl Event.callsAfter c).length = c.length := by
    intro i c
    rw [Decoder.argumentEvents]
    split
    · rfl
    · exact length_addFragment i tc.arguments c
  split at hcall
  case h_1 hnone =>
    -- a new call: there was none before
    simp only [bind_ok, pure_ok] at hcall
    obtain ⟨-, -, heq⟩ := hcall
    rw [Decoder.startCall, hzero] at heq
    cases heq
    rcases h with ⟨hdone, rfl | ⟨-, hd⟩⟩
    · refine ⟨hopen, hdone, .inr ⟨hfragment _ _, .inr ?_⟩⟩
      show ((d.tools ++ [_]).lookup 0).isSome = true
      rw [lookup_append, hnone]
      rfl
    · rcases hd with hd | hd
      · rw [hopen] at hd
        cases hd
      · rw [hnone] at hd
        cases hd
  case h_2 t hsome =>
    simp only [bind_ok, pure_ok] at hcall
    obtain ⟨-, -, heq⟩ := hcall
    cases heq
    rcases h with ⟨hdone, rfl | ⟨hlen, -⟩⟩
    · exact ⟨hopen, hdone, .inl (length_eq_zero_iff.1 (hfragment _ _))⟩
    · exact ⟨hopen, hdone, .inr ⟨(hfragment _ _).trans hlen, .inr (by rw [hsome]; rfl)⟩⟩

theorem contentChoice_alike (d : Decoder) (s : Option String) (c' : List ToolCall) :
    Alike d (d.contentChoice s).1 ∧ (d.contentChoice s).2.foldl Event.callsAfter c' = c' := by
  rcases s with - | s
  · exact ⟨⟨rfl, rfl, rfl⟩, rfl⟩
  show Alike d (d.content s).1 ∧ (d.content s).2.foldl Event.callsAfter c' = c'
  rw [Decoder.content]
  split <;> exact ⟨⟨rfl, rfl, rfl⟩, rfl⟩

theorem release_alike (d : Decoder) (c' : List ToolCall) :
    Alike d d.release.1 ∧ d.release.2.foldl Event.callsAfter c' = c' := by
  rw [Decoder.release]
  split
  · split <;> exact ⟨⟨rfl, rfl, rfl⟩, rfl⟩
  · exact ⟨⟨rfl, rfl, rfl⟩, rfl⟩

theorem identify_alike (h : d.identify x = .ok d') : Alike d d' := by
  simp only [Decoder.identify, bind_ok, pure_ok] at h
  obtain ⟨-, -, -, -, rfl⟩ := h
  exact ⟨rfl, rfl, rfl⟩

theorem start_alike (c' : List ToolCall) (h : d.start = .ok (d', evs)) :
    Alike d d' ∧ evs.foldl Event.callsAfter c' = c' := by
  rw [Decoder.start] at h
  split at h
  · cases h
    exact ⟨⟨rfl, rfl, rfl⟩, rfl⟩
  simp only [bind_ok, pure_ok] at h
  obtain ⟨-, -, heq⟩ := h
  cases heq
  exact ⟨⟨rfl, rfl, rfl⟩, rfl⟩

theorem usage_alike {w : Option UsageWire} (c' : List ToolCall) (h : d.usage w = .ok (d', evs)) :
    Alike d d' ∧ evs.foldl Event.callsAfter c' = c' := by
  rcases w with - | w
  · cases h
    exact ⟨⟨rfl, rfl, rfl⟩, rfl⟩
  simp only [Decoder.usage, bind_ok, pure_ok] at h
  obtain ⟨u, -, -, -, heq⟩ := h
  cases heq
  exact release_alike d c'

theorem atMostOne_choice (hopen : d.finished = false)
    (hzero : ∀ tc ∈ ch.delta.toolCalls, tc.index = 0) (h : AtMostOne d c')
    (hchoice : d.choice ch = .ok (d', evs)) :
    AtMostOne d' (evs.foldl Event.callsAfter c') := by
  rw [Decoder.choice] at hchoice
  simp only [bind_ok, pure_ok] at hchoice
  obtain ⟨-, -, -, -, -, -, ⟨d₂, calls⟩, hcalls, ⟨d₃, last⟩, hlast, heq⟩ := hchoice
  cases heq
  obtain ⟨halike, hquiet⟩ := contentChoice_alike d ch.delta.content c'
  obtain ⟨-, h₂⟩ := emitAll_foldl_inv
    (fun d c' => d.finished = false ∧ AtMostOne d c') Event.callsAfter
    (fun tc htc s s' c out hs hcall => atMostOne_call hs.1 (hzero tc htc) hs.2 hcall)
    ⟨halike.finished.trans hopen, h.of_alike halike hquiet⟩ hcalls
  rw [foldl_append, foldl_append]
  rcases hreason : ch.finishReason with - | reason
  · rw [hreason] at hlast
    cases hlast
    exact h₂
  -- after the finish nothing more is asked of the calls
  rw [hreason] at hlast
  simp only [Decoder.finishChoice, Decoder.finish, bind_ok, pure_ok] at hlast
  obtain ⟨-, -, f, -, heq⟩ := hlast
  cases heq
  rw [Decoder.ends, (ends_quiet _ _).2.1]
  exact ⟨h₂.1, h₂.2.imp_right fun hc => ⟨hc.1, .inl rfl⟩⟩

theorem atMostOne_chunk
    (hx : x.choices = [] ∨ ∃ ch, x.choices = [ch] ∧ ∀ tc ∈ ch.delta.toolCalls, tc.index = 0)
    (h : AtMostOne d c') (hchunk : d.chunk x = .ok (d', evs)) :
    AtMostOne d' (evs.foldl Event.callsAfter c') := by
  rw [Decoder.chunk] at hchunk
  simp only [bind_ok, pure_ok, require_ok] at hchunk
  obtain ⟨-, -, -, -, d₁, hidentify, ⟨d₂, first⟩, hstart, -, hafter, ⟨d₃, choices⟩, hchoices,
    ⟨d₄, last⟩, hlast, heq⟩ := hchunk
  cases heq
  have h₁ : AtMostOne d₁ (([] : List Event).foldl Event.callsAfter c') :=
    h.of_alike (identify_alike hidentify) rfl
  obtain ⟨halike, hquiet⟩ := start_alike c' hstart
  have h₂ := h₁.of_alike halike hquiet
  have h₃ : AtMostOne d₃ (choices.foldl Event.callsAfter (first.foldl Event.callsAfter c')) := by
    rcases hx with hx | ⟨ch, hx, hzero⟩
    · rw [hx] at hchoices
      cases hchoices
      exact h₂
    -- a choice is read only before the finish
    have hopen : d₂.finished = false := by simpa [hx] using hafter
    rw [hx] at hchoices
    obtain ⟨d', out, rest, hch, hrest, rfl⟩ := emitAll_cons_ok.1 hchoices
    cases hrest
    rw [append_nil]
    exact atMostOne_choice hopen hzero h₂ hch
  rw [foldl_append, foldl_append]
  obtain ⟨halike₄, hquiet₄⟩ := usage_alike
    (choices.foldl Event.callsAfter (first.foldl Event.callsAfter c')) hlast
  exact h₃.of_alike halike₄ hquiet₄

theorem size_le_of_feed (h : decoder.feed d f = .ok (d', evs)) :
    f.size ≤ maxEventBytes ∧ d.body f.body = .ok (d', evs) := by
  have hfeed : Decoder.feed d f = .ok (d', evs) := h
  simp only [Decoder.feed, bind_ok, require_ok, decide_eq_true_eq] at hfeed
  obtain ⟨-, hsize, hbody⟩ := hfeed
  exact ⟨hsize, hbody⟩

/-- The last frame ends the reading, and has no call. -/
theorem body_of_last (hf : Last f) (h : d.body f.body = .ok (d', evs)) (c' : List ToolCall) :
    d'.done = true ∧ evs.foldl Event.callsAfter c' = c' := by
  rcases hf with hf | ⟨payload, hf⟩ <;> rw [hf] at h
  · simp only [Decoder.body, bind_ok, pure_ok] at h
    obtain ⟨-, -, heq⟩ := h
    obtain ⟨halike, hquiet⟩ := release_alike { d with done := true } c'
    rw [heq] at halike hquiet
    exact ⟨halike.done, hquiet⟩
  · simp only [Decoder.body, bind_ok, pure_ok] at h
    obtain ⟨er, -, -, -, heq⟩ := h
    cases heq
    exact ⟨rfl, rfl⟩

/-- **What can be read fits, and has at most one call.** -/
theorem atMostOne_of_decodes {pre : List Frame} (hpre : ∀ g ∈ pre, Plain g) (hf : Last f)
    (h : AtMostOne d c') (hdec : decoder.Decodes d (pre ++ [f]) evs) :
    (∀ g ∈ pre ++ [f], g.size ≤ maxEventBytes) ∧
      (evs.foldl Event.callsAfter c').length ≤ 1 := by
  have hgoes : decoder.stopped d ≠ true := by
    show d.done ≠ true
    simp [h.1]
  induction pre generalizing d evs c' with
  | nil =>
    cases hdec with
    | stop hstop => exact absurd hstop hgoes
    | feed _ hfeed hrest =>
      obtain ⟨hsize, hbody⟩ := size_le_of_feed hfeed
      obtain ⟨hdone, hcalls⟩ := body_of_last hf hbody c'
      refine ⟨fun g hg => by rwa [mem_singleton.1 hg], ?_⟩
      cases hrest with
      | stop =>
        rw [append_nil, hcalls]
        exact h.length_le
      | close hopen | closing hopen =>
        exact absurd hopen (by rw [show decoder.stopped _ = true from hdone]; simp)
  | cons g pre ih =>
    cases hdec with
    | stop hstop => exact absurd hstop hgoes
    | feed _ hfeed hrest =>
      obtain ⟨hsize, hbody⟩ := size_le_of_feed hfeed
      obtain ⟨x, hg, hx⟩ := hpre g mem_cons_self
      rw [hg] at hbody
      have h₁ := atMostOne_chunk hx h (show d.chunk x = .ok _ from hbody)
      obtain ⟨hfits, hlen⟩ := ih (fun g hg => hpre g (mem_cons_of_mem _ hg)) h₁ hrest
        (show _ ≠ true by rw [show decoder.stopped _ = false from h₁.1]; simp)
      refine ⟨forall_mem_cons.2 ⟨hsize, hfits⟩, ?_⟩
      rw [foldl_append]
      exact hlen

end Hoorific.Protocol.Chat
