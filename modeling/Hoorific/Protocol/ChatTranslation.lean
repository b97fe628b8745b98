/-
A stream of events and its translation for a chat client, side by side: the
encoder writes the events one by one, and the decoder reads the frames that
were written.  As long as there is at most one call and the frames fit, what
the decoder reads has the same text and the same call (`exists_step`), and at
the end the same finish (`exists_ending`).
-/
import Hoorific.Protocol.Chat

namespace Hoorific.Protocol.Chat

open List Check

variable {d d' : Decoder} {id model object : String} {ch : Choice} {f f' : Finish} {e e' : Encoder}
  {c c' : List ToolCall} {evs : List Event} {v : Event} {frames out : List Frame} {u : Usage}
  {w : UsageWire}

/-! ### Reading a chunk of the stream -/

namespace Decoder

/-- The stream has begun and goes on. -/
structure Running (d : Decoder) (id model : String) : Prop where
  started : d.started = true
  finished : d.finished = false
  id_eq : d.id = id
  model_eq : d.model = model

variable {x : Chunk}

theorem identify_same (hid : d.id = x.id) (hmodel : d.model = x.model) : d.identify x = .ok d := by
  rw [identify]
  simp only [bind_ok, require_ok]
  refine ⟨(), by simp [hid], (), by simp [hmodel], ?_⟩
  rw [← hid, ← hmodel]
  simp only [ite_self]
  rfl

/-- A chunk of a running stream yields what its choices yield. -/
theorem chunk_of_running {out : List Event} (h : d.Running id model)
    (hobject : object = "" ∨ object = "chat.completion.chunk")
    (hchoice : d.choice ch = .ok (d', out)) :
    d.chunk { id := id, object := object, model := model, choices := [ch] } = .ok (d', out) := by
  rw [chunk]
  simp only [bind_ok, require_ok]
  refine ⟨(), rfl, (), by rcases hobject with rfl | rfl <;> rfl, d,
    identify_same h.id_eq h.model_eq, (d, []), by rw [start, if_pos h.started], (),
    by simp [h.finished], (d', out), ?_, (d', []), rfl, by simp⟩
  exact emitAll_cons_ok.2 ⟨d', out, [], hchoice, rfl, by simp⟩

theorem feed_chunkFrame (hfits : (chunkFrame x).size ≤ maxEventBytes) :
    decoder.feed d (chunkFrame x) = d.chunk x := by
  show feed d (chunkFrame x) = d.chunk x
  rw [feed, decide_eq_true hfits]
  rfl

theorem release_of_emitted (h : d.finishEmitted = true) : d.release = (d, []) := by
  rw [release]
  split
  · rw [if_pos h]
  · rfl

theorem release_of_pending (h : d.finishPending = some f) (hemitted : d.finishEmitted = false) :
    d.release = ({ d with finishEmitted := true }, [.finish f]) := by
  simp only [release, h, hemitted, Bool.false_eq_true, if_false]

end Decoder

/-! ### The stream and its translation side by side -/

/-- Calls are started without a number of their own. -/
def Flat : Event → Prop
  | .toolCallStart i _ _ => i.tool = 0
  | .blockStart i .toolCall _ _ => i.tool = 0
  | _ => True

/-- The counters of a usage are `int64`. -/
def Counted : Event → Prop
  | .usage u => int64s u.counters = true
  | _ => True

/-- The stream is over after this event. -/
def Terminal : Event → Prop
  | .finish _ => True
  | .streamError _ => True
  | _ => False

/-- What the decoder knows of a stream that the encoder has written so far. -/
structure Follows (e : Encoder) (d : Decoder) : Prop where
  encoder_open : e.done = false ∧ e.finished = false
  decoder_open : d.done = false ∧ d.finished = false
  no_finish : d.finishEmitted = false
  started : d.started = e.started
  id_eq : d.id = e.id
  model_eq : d.model = e.model
  anonymous : e.started = false → e.id = "" ∧ e.model = ""
  text_index : ∀ i ∈ e.text, e.started = true ∧ i.choice = 0
  tools_index : ∀ i ∈ e.tools, e.started = true ∧ i.choice = 0 ∧ i.tool = 0
  counted : ∀ u, e.pendingUsage = some u → int64s u.counters = true

theorem Follows.running (h : Follows e d) (hs : e.started = true) : d.Running e.id e.model :=
  ⟨h.started.trans hs, h.decoder_open.2, h.id_eq, h.model_eq⟩

/-- The calls of the stream and of its translation, the latest first, if there
is at most one: it has the index 0 on the wire. -/
inductive Calls (e : Encoder) (d : Decoder) : List ToolCall → List ToolCall → Prop
  | none (he : e.tools = ∅) (hd : d.tools = []) : Calls e d [] []
  | one {i i' : Index} {id name arguments : String} (he : ∀ j ∈ e.tools, j = i)
      (hd : d.tools = [(0, ⟨i', id, name⟩)]) :
    Calls e d [⟨i, id, name, arguments⟩] [⟨i', id, name, arguments⟩]

theorem Calls.of_tools_eq (h : Calls e d c c') (he : e'.tools ⊆ e.tools) (hd : d'.tools = d.tools) :
    Calls e' d' c c' := by
  cases h with
  | none he' hd' => exact .none (Finset.subset_empty.1 (he' ▸ he)) (hd.trans hd')
  | one he' hd' => exact .one (fun j hj => he' j (he hj)) (hd.trans hd')

/-- What the decoder makes of the frames of one event. -/
structure Reads (d : Decoder) (frames : List Frame) (d' : Decoder) (evs : List Event) : Prop where
  decodes : ∀ rest l, decoder.Decodes d' rest l → decoder.Decodes d (frames ++ rest) (evs ++ l)

theorem Reads.nothing (d : Decoder) : Reads d [] d [] := ⟨fun _ _ h => h⟩

theorem Reads.frame {f : Frame} (hopen : d.done = false) (h : decoder.feed d f = .ok (d', evs)) :
    Reads d [f] d' evs :=
  ⟨fun _ _ hrest => .feed hopen h hrest⟩

/-- A frame with one choice of a running stream. -/
theorem Reads.choice (h : Follows e d) (hs : e.started = true)
    (hobject : object = "" ∨ object = "chat.completion.chunk")
    (hfits : (e.choiceFrame object ch).size ≤ maxEventBytes) (hchoice : d.choice ch = .ok (d', evs))
    : Reads d [e.choiceFrame object ch] d' evs := by
  apply Reads.frame h.decoder_open.1
  show decoder.feed d (chunkFrame _) = _
  rw [Decoder.feed_chunkFrame hfits]
  exact Decoder.chunk_of_running (h.running hs) hobject hchoice

/-- What one event does to the two sides. -/
structure Step (e' : Encoder) (d : Decoder) (v : Event) (frames : List Frame)
    (c c' : List ToolCall) (d' : Decoder) (evs : List Event) : Prop where
  reads : Reads d frames d' evs
  follows : Follows e' d'
  calls : Calls e' d' (v.callsAfter c) (evs.foldl Event.callsAfter c')
  text : textOf evs = v.text
  finishes : finishesOf evs = []

section Steps

theorem step_silent (hF : Follows e' d) (hC : Calls e d c c') (htools : e'.tools ⊆ e.tools)
    (hafter : v.callsAfter c = c) (htext : v.text = "") :
    Step e' d v [] c c' d [] :=
  ⟨Reads.nothing d, hF, hafter.symm ▸ hC.of_tools_eq htools rfl, htext.symm, rfl⟩

theorem choice_call {tc : CallDelta} (h : d.call tc = .ok (d', evs)) :
    d.choice { index := 0, delta := { toolCalls := [tc] } } = .ok (d', evs) := by
  rw [Decoder.choice]
  simp only [bind_ok, require_ok]
  refine ⟨(), rfl, (), rfl, (), rfl, (d', evs), ?_, (d', []), rfl, by simp [Decoder.contentChoice]⟩
  exact emitAll_cons_ok.2 ⟨d', evs, [], h, rfl, by simp⟩

variable (hF : Follows e d) (hC : Calls e d c c') {i : Index} {s : String}

include hF hC

theorem step_start (hs : e.started = false) (hid : id ≠ "") (hmodel : model ≠ "")
    (hfits : (({ e with started := true, id := id, model := model } : Encoder).choiceFrame
      "chat.completion.chunk" { index := 0, delta := { role := "assistant" } }).size
        ≤ maxEventBytes) :
    Step { e with started := true, id := id, model := model } d (.start id model)
      [({ e with started := true, id := id, model := model } : Encoder).choiceFrame
        "chat.completion.chunk" { index := 0, delta := { role := "assistant" } }] c c'
      { d with started := true, id := id, model := model } [.start id model] := by
  refine ⟨Reads.frame hF.decoder_open.1 ?_, ?_, hC.of_tools_eq (Finset.Subset.refl _) rfl, rfl, rfl⟩
  · show decoder.feed d (chunkFrame _) = _
    rw [Decoder.feed_chunkFrame hfits, Decoder.chunk]
    simp only [bind_ok, require_ok]
    have hid₀ : d.id = "" := hF.id_eq.trans (hF.anonymous hs).1
    have hmodel₀ : d.model = "" := hF.model_eq.trans (hF.anonymous hs).2
    refine ⟨(), rfl, (), rfl, { d with id := id, model := model }, ?_,
      ({ d with started := true, id := id, model := model }, [.start id model]), ?_, (), ?_,
      ({ d with started := true, id := id, model := model }, []), rfl,
      ({ d with started := true, id := id, model := model }, []), rfl, rfl⟩
    · rw [Decoder.identify, hid₀, hmodel₀]
      simp only [bind_ok, require_ok]
      refine ⟨(), by simp, (), by simp, ?_⟩
      rw [if_neg hid, if_neg hmodel]
      rfl
    · rw [Decoder.start, if_neg (by simp [hF.started, hs])]
      simp only [bind_ok, require_ok]
      exact ⟨(), by simp [hid, hmodel], rfl⟩
    · simp [hF.decoder_open.2]
  · exact
      { hF with
        started := rfl
        id_eq := rfl
        model_eq := rfl
        anonymous := fun h => Bool.noConfusion h
        text_index := fun i hi => ⟨rfl, (hF.text_index i hi).2⟩
        tools_index := fun i hi => ⟨rfl, (hF.tools_index i hi).2⟩ }

theorem step_call {name : String} (hs : e.started = true) (hchoice : i.choice = 0)
    (htool : i.tool = 0) (hid : id ≠ "") (hname : name ≠ "")
    (hafter : v.callsAfter c = ⟨i, id, name, ""⟩ :: c) (htext : v.text = "")
    (hone : (v.callsAfter c).length ≤ 1)
    (hfits : (e.callFrame 0 { index := i.tool, id := id, type := "function", name := name }).size
      ≤ maxEventBytes) :
    ∃ d' evs, Step { e with tools := insert i e.tools } d v
      [e.callFrame 0 { index := i.tool, id := id, type := "function", name := name }] c c'
        d' evs := by
  rw [hafter] at hone
  cases hC with
  | one => simp at hone
  | none he hd =>
    let i' : Index := { block := d.blocks }
    refine ⟨{ d with blocks := d.blocks + 1, tools := [(0, ⟨i', id, name⟩)] },
      [.toolCallStart i' id name], Reads.choice hF hs (.inl rfl) hfits (choice_call ?_), ?_, ?_,
      htext.symm, rfl⟩
    · rw [Decoder.call, htool, hd]
      simp only [bind_ok, require_ok, lookup_nil]
      refine ⟨(), rfl, (), rfl, (), by simp [hid, hname], ?_⟩
      rw [Decoder.startCall, hd]
      rfl
    · exact
        { hF with
          tools_index := by
            intro j hj
            rw [he, insert_empty_eq, Finset.mem_singleton] at hj
            subst hj
            exact ⟨hs, hchoice, htool⟩ }
    · rw [hafter]
      refine .one (fun j hj => ?_) rfl
      rw [he, insert_empty_eq, Finset.mem_singleton] at hj
      exact hj

theorem step_text (hopen : i ∈ e.text)
    (hfits : (e.choiceFrame "" { index := i.choice, delta := { content := some s } }).size
      ≤ maxEventBytes) :
    ∃ d' evs, Step e d (.textDelta i s)
      [e.choiceFrame "" { index := i.choice, delta := { content := some s } }] c c' d' evs := by
  obtain ⟨hs, hchoice⟩ := hF.text_index i hopen
  have hread : d.choice { index := i.choice, delta := { content := some s } } =
      .ok (d.content s) := by
    rw [Decoder.choice, hchoice]
    simp only [bind_ok, require_ok]
    exact ⟨(), rfl, (), rfl, (), rfl, ((d.content s).1, []), rfl, ((d.content s).1, []), rfl,
      by simp [Decoder.contentChoice]⟩
  -- the first text of the translation starts its block
  rcases htext : d.text with - | j
  · let i' : Index := { block := d.blocks }
    have hcontent : d.content s = ({ d with blocks := d.blocks + 1, text := some i' },
        [.blockStart i' .text "" "", .textDelta i' s]) := by
      unfold Decoder.content
      rw [htext]
    refine ⟨_, _, Reads.choice hF hs (.inl rfl) hfits (hread.trans (congrArg _ hcontent)),
      { hF with }, hC.of_tools_eq (Finset.Subset.refl _) rfl, ?_, rfl⟩
    show "" ++ (s ++ "") = s
    rw [String.append_empty, String.empty_append]
  · have hcontent : d.content s = (d, [.textDelta j s]) := by
      unfold Decoder.content
      rw [htext]
    exact ⟨_, _, Reads.choice hF hs (.inl rfl) hfits (hread.trans (congrArg _ hcontent)), hF, hC,
      String.append_empty, rfl⟩

theorem step_arguments (hopen : i ∈ e.tools)
    (hfits : (e.callFrame i.choice { index := i.tool, arguments := s }).size ≤ maxEventBytes) :
    ∃ d' evs, Step e d (.toolArgumentsDelta i s)
      [e.callFrame i.choice { index := i.tool, arguments := s }] c c' d' evs := by
  obtain ⟨hs, hchoice, htool⟩ := hF.tools_index i hopen
  cases hC with
  | none he => simp [he] at hopen
  | @one i₀ i' id name arguments he hd =>
    obtain rfl := he i hopen
    have hread : d.call { index := i.tool, arguments := s } =
        .ok (d, Decoder.argumentEvents i' s) := by
      rw [Decoder.call, htool, hd]
      simp only [bind_ok, require_ok, lookup_cons_self]
      exact ⟨(), rfl, (), rfl, (), rfl, rfl⟩
    refine ⟨d, Decoder.argumentEvents i' s, ?_, hF, ?_, ?_, ?_⟩
    · rw [hchoice] at hfits ⊢
      exact Reads.choice hF hs (.inl rfl) hfits (choice_call hread)
    · show Calls e d (addFragment i s [_]) _
      rw [addFragment, if_pos rfl, Decoder.argumentEvents]
      split
      case isTrue hempty =>
        rw [hempty, String.append_empty]
        exact .one he hd
      case isFalse =>
        rw [foldl_cons, Event.callsAfter, addFragment, if_pos rfl]
        exact .one he hd
    · rw [Decoder.argumentEvents]
      split <;> rfl
    · rw [Decoder.argumentEvents]
      split <;> rfl

/-- **One event and its translation.**  What the decoder reads has the text of
the event, and the calls of the two sides stay the same. -/
theorem exists_step (hw : e.Writes v e' frames) (hflat : Flat v) (hcounted : Counted v)
    (hgoes : ¬Terminal v)
    (hone : (v.callsAfter c).length ≤ 1) (hfits : ∀ f ∈ frames, f.size ≤ maxEventBytes) :
    ∃ d' evs, Step e' d v frames c c' d' evs := by
  cases hw with
  | start hs hid hmodel =>
    exact ⟨_, _, step_start hF hC hs hid hmodel (hfits _ mem_cons_self)⟩
  | toolCallStart hs hchoice hid hname | callStart hs hchoice hid hname =>
    exact step_call hF hC hs hchoice hflat hid hname rfl rfl hone (hfits _ mem_cons_self)
  | textStart hs hchoice =>
    refine ⟨d, [], step_silent { hF with text_index := fun j hj => ?_ } hC
      (Finset.Subset.refl _) rfl rfl⟩
    rcases Finset.mem_insert.1 hj with rfl | hj
    · exact ⟨hs, hchoice⟩
    · exact hF.text_index j hj
  | textDelta hopen => exact step_text hF hC hopen (hfits _ mem_cons_self)
  | arguments hopen => exact step_arguments hF hC hopen (hfits _ mem_cons_self)
  | textEnd =>
    exact ⟨d, [], step_silent
      { hF with text_index := fun j hj => hF.text_index j (Finset.mem_of_mem_erase hj) } hC
      (Finset.Subset.refl _) rfl rfl⟩
  | callEnd =>
    exact ⟨d, [], step_silent
      { hF with tools_index := fun j hj => hF.tools_index j (Finset.mem_of_mem_erase hj) } hC
      (Finset.erase_subset _ _) rfl rfl⟩
  | usage =>
    refine ⟨d, [], step_silent { hF with counted := ?_ } hC (Finset.Subset.refl _) rfl rfl⟩
    rintro u' hu'
    cases hu'
    exact hcounted
  | finish | streamError => exact absurd trivial hgoes

end Steps

/-! ### The end of the stream -/

theorem finishFromWire_of_finishOK (h : finishOK f = .ok ()) :
    f.reason ≠ "" ∧ ∃ f', finishFromWire f.reason = .ok f' ∧ f'.reason = f.reason := by
  simp only [finishOK, bind_ok, require_ok, Bool.and_eq_true, bne_iff_ne, decide_eq_true_eq] at h
  obtain ⟨-, ⟨-, hne⟩, -, -, hmem⟩ := h
  refine ⟨hne, ?_⟩
  rw [finishFromWire]
  split
  case isTrue => exact ⟨_, rfl, rfl⟩
  case isFalse hnot =>
    have hlength : f.reason = "length" := by
      simp only [mem_cons, not_mem_nil, or_false] at hmem hnot
      tauto
    rw [if_pos hlength]
    exact ⟨_, rfl, rfl⟩

theorem addPart_range {total total' : Int} {part : Option Int} (h : addPart total part = .ok total')
    (htotal : 0 ≤ total ∧ total ≤ maxInt64) (hpart : ∀ n, part = some n → 0 ≤ n) :
    0 ≤ total' ∧ total' ≤ maxInt64 := by
  rcases part with - | n
  · cases h
    exact htotal
  rw [addPart] at h
  split at h
  · cases h
  cases h
  have hn := hpart n rfl
  omega

/-- The aggregate of a usage is a counter. -/
theorem cacheWriteAggregate_range {write : Option Int} (hnonneg : nonneg u.counters = true)
    (hcounted : int64s u.counters = true) (h : cacheWriteAggregate u = .ok write) (n : Int)
    (hn : write = some n) :
    0 ≤ n ∧ int64 n = true := by
  rw [nonneg_iff] at hnonneg
  rw [int64s_iff] at hcounted
  rw [cacheWriteAggregate] at h
  split at h
  case h_1 hk =>
    cases h
    cases hn
    have hmem : some n ∈ u.counters := by simp [Usage.counters, hk]
    exact ⟨hnonneg n hmem, hcounted n hmem⟩
  case h_2 =>
    simp only [bind_ok, pure_ok] at h
    obtain ⟨t₁, h₁, t₂, h₂, hw⟩ := h
    have hr₁ := addPart_range h₁ (by decide) fun k hk =>
      hnonneg k (by simp [Usage.counters, hk])
    have hr₂ := addPart_range h₂ hr₁ fun k hk => hnonneg k (by simp [Usage.counters, hk])
    rw [hn] at hw
    split at hw
    · cases hw
      refine ⟨hr₂.1, decide_eq_true ?_⟩
      have hmax : maxInt64 = 2 ^ 63 - 1 := rfl
      omega
    · cases hw

/-- A usage that is written can be read. -/
theorem decodeUsage_of_encodeUsage (hcounted : int64s u.counters = true)
    (h : encodeUsage u = .ok w) :
    int64s w.counters = true ∧ ∃ u', decodeUsage w = .ok u' := by
  simp only [encodeUsage, bind_ok, require_ok, pure_ok] at h
  obtain ⟨-, hnonneg, write, hwrite, hw⟩ := h
  have hrange := cacheWriteAggregate_range hnonneg hcounted hwrite
  rw [nonneg_iff] at hnonneg
  rw [int64s_iff] at hcounted
  have hwire : ∀ n : Int, some n ∈ w.counters → some n ∈ u.counters ∨ write = some n := by
    intro n hn
    rw [← hw] at hn
    simp only [UsageWire.counters, Usage.counters] at hn ⊢
    split at hn <;> rcases hr : u.reasoningOutput with - | r <;>
      simp [hr, PromptDetails.counters, CompletionDetails.counters] at hn ⊢ <;> tauto
  refine ⟨int64s_iff.2 fun n hn => ?_, ?_⟩
  · exact (hwire n hn).elim (hcounted n) fun hw => (hrange n hw).2
  · simp only [decodeUsage, bind_ok, require_ok, pure_ok]
    refine ⟨_, (), nonneg_iff.2 fun n hn => ?_, rfl⟩
    exact (hwire n hn).elim (hnonneg n) fun hw => (hrange n hw).1

/-- What the decoder makes of the frames of the last event. -/
structure Ending (d : Decoder) (frames : List Frame) (v : Event) (c' : List ToolCall)
    (evs : List Event) : Prop where
  decodes : decoder.Decodes d frames evs
  text : textOf evs = ""
  calls : evs.foldl Event.callsAfter c' = c'
  reasons : (finishesOf evs).map Finish.reason = (finishesOf [v]).map Finish.reason

/-- Ends of blocks have no text, no call and no finish. -/
theorem ends_quiet (is : List Index) (c' : List ToolCall) :
    textOf (is.map .blockEnd) = "" ∧ (is.map .blockEnd).foldl Event.callsAfter c' = c' ∧
      finishesOf (is.map .blockEnd) = [] := by
  induction is with
  | nil => exact ⟨rfl, rfl, rfl⟩
  | cons i is ih =>
    obtain ⟨htext, hcalls, hfinishes⟩ := ih
    refine ⟨?_, hcalls, hfinishes⟩
    rw [map_cons, textOf, htext]
    rfl

theorem Ending.after_ends {f : Frame} {is : List Index} (hopen : d.done = false)
    (hfeed : decoder.feed d f = .ok (d', is.map .blockEnd)) (h : Ending d' frames v c' evs) :
    Ending d (f :: frames) v c' (is.map .blockEnd ++ evs) := by
  obtain ⟨htext, hcalls, hfinishes⟩ := ends_quiet is c'
  refine ⟨.feed hopen hfeed h.decodes, ?_, ?_, ?_⟩
  · rw [textOf_append, htext, h.text, String.append_empty]
  · rw [foldl_append, hcalls, h.calls]
  · rw [finishesOf, filterMap_append]
    show (finishesOf (is.map .blockEnd) ++ finishesOf evs).map Finish.reason = _
    rw [hfinishes, nil_append, h.reasons]

theorem feed_doneFrame (d : Decoder) (hf : d.finished = true) :
    decoder.feed d doneFrame = .ok ({ d with done := true } : Decoder).release := by
  show Decoder.feed d doneFrame = _
  rw [Decoder.feed, bind_ok]
  refine ⟨(), by rw [require_ok]; decide, ?_⟩
  show Decoder.body d .done = _
  rw [Decoder.body, bind_ok]
  exact ⟨(), by rw [require_ok, hf], rfl⟩

section

variable (c' : List ToolCall) (hf : d.finished = true) (hdone : d.done = false)
  (hpending : d.finishPending = some f') (hemitted : d.finishEmitted = false)
  (hreason : f'.reason = f.reason)

include hf hdone hpending hemitted hreason

/-- A finish, read after the chunk that carries it. -/
theorem ending_done : Ending d [doneFrame] (.finish f) c' [.finish f'] := by
  have hfeed := feed_doneFrame d hf
  rw [Decoder.release_of_pending (d := { d with done := true }) hpending hemitted] at hfeed
  exact ⟨.feed hdone hfeed (.stop rfl), rfl, rfl, by simp [finishesOf, hreason]⟩

/-- A finish, read with the usage that follows its chunk. -/
theorem ending_usage (hstarted : d.started = true) (hid : d.id = e.id) (hmodel : d.model = e.model)
    (hw : int64s w.counters = true) (hu : decodeUsage w = .ok u)
    (hfits : (e.usageFrame w).size ≤ maxEventBytes) :
    Ending d [e.usageFrame w, doneFrame] (.finish f) c' [.usage u, .finish f'] := by
  have hfeed : decoder.feed d (e.usageFrame w) =
      .ok ({ d with finishEmitted := true }, [.usage u, .finish f']) := by
    show decoder.feed d (chunkFrame _) = _
    rw [Decoder.feed_chunkFrame hfits, Decoder.chunk]
    simp only [bind_ok, require_ok]
    refine ⟨(), hw, (), rfl, d, Decoder.identify_same hid hmodel, (d, []),
      by rw [Decoder.start, if_pos hstarted], (), by simp, (d, []), rfl,
      ({ d with finishEmitted := true }, [.usage u, .finish f']), ?_, rfl⟩
    rw [Decoder.usage, Decoder.release_of_pending hpending hemitted]
    simp only [bind_ok, require_ok]
    exact ⟨u, hu, (), hf, rfl⟩
  have hlast := feed_doneFrame { d with finishEmitted := true } hf
  rw [Decoder.release_of_emitted rfl] at hlast
  have hrest : decoder.Decodes { d with finishEmitted := true } [doneFrame] ([] ++ []) :=
    .feed hdone hlast (.stop rfl)
  exact ⟨.feed hdone hfeed hrest, rfl, rfl, by simp [finishesOf, hreason]⟩

end

/-- **The last event and its translation.** -/
theorem exists_ending (c' : List ToolCall) (hF : Follows e d) (hw : e.Writes v e' frames)
    (hlast : Terminal v) (hfits : ∀ f ∈ frames, f.size ≤ maxEventBytes) :
    ∃ evs, Ending d frames v c' evs := by
  cases hw with
  | @finish f usage hs hok husage =>
    obtain ⟨hne, f', hf', hreason⟩ := finishFromWire_of_finishOK hok
    let d₁ : Decoder :=
      { d with text := none, tools := [], finished := true, finishPending := some f' }
    have hchoice : d.choice { index := 0, finishReason := some f.reason } = .ok (d₁, d.ends) := by
      rw [Decoder.choice]
      simp only [bind_ok, require_ok]
      refine ⟨(), rfl, (), rfl, (), rfl, (d, []), rfl, (d₁, d.ends), ?_, rfl⟩
      show d.finish f.reason = _
      rw [Decoder.finish]
      simp only [bind_ok, require_ok]
      exact ⟨(), by simp [hF.decoder_open.2, hne], f', hf', rfl⟩
    have hfeed : decoder.feed d (e.choiceFrame "chat.completion.chunk"
        { index := 0, finishReason := some f.reason }) = .ok (d₁, d.ends) := by
      show decoder.feed d (chunkFrame _) = _
      rw [Decoder.feed_chunkFrame (hfits _ mem_cons_self)]
      exact Decoder.chunk_of_running (hF.running hs) (.inr rfl) hchoice
    rw [Encoder.usageFrames] at husage
    split at husage
    case h_1 =>
      cases husage
      exact ⟨_, .after_ends hF.decoder_open.1 hfeed
        (ending_done c' rfl hF.decoder_open.1 rfl hF.no_finish hreason)⟩
    case h_2 u hu =>
      simp only [bind_ok, pure_ok] at husage
      obtain ⟨w, hw, rfl⟩ := husage
      obtain ⟨hint, u', hu'⟩ := decodeUsage_of_encodeUsage (hF.counted u hu) hw
      refine ⟨_, .after_ends hF.decoder_open.1 hfeed (ending_usage c' rfl
        hF.decoder_open.1 rfl hF.no_finish hreason (hF.started.trans hs) hF.id_eq hF.model_eq
        hint hu' ?_)⟩
      exact hfits _ (by simp)
  | @streamError err hmessage =>
    have hfeed : decoder.feed d (errorFrame ⟨err.code, err.message, err.param⟩) =
        .ok ({ d with done := true },
          [.streamError ⟨err.code, 400, err.message, err.param, "provider"⟩]) := by
      show Decoder.feed d _ = _
      rw [Decoder.feed, bind_ok]
      refine ⟨(), by rw [require_ok]; exact decide_eq_true (hfits _ mem_cons_self), ?_⟩
      show Decoder.body d (.error (.ok _)) = _
      rw [Decoder.body]
      simp only [bind_ok, require_ok]
      exact ⟨_, rfl, (), by simp [hmessage], rfl⟩
    exact ⟨_, .feed hF.decoder_open.1 hfeed (.stop rfl), rfl, rfl, rfl⟩
  | _ => exact hlast.elim

/-! ### Whole streams -/

theorem length_addFragment (i : Index) (s : String) (c : List ToolCall) :
    (addFragment i s c).length = c.length := by
  induction c with
  | nil => rfl
  | cons x c ih =>
    rw [addFragment]
    split
    · rfl
    · rw [length_cons, length_cons, ih]

/-- Calls are not forgotten. -/
theorem length_le_callsAfter (v : Event) (c : List ToolCall) :
    c.length ≤ (v.callsAfter c).length := by
  cases v with
  | toolCallStart i id name => exact Nat.le_succ _
  | blockStart i kind id name =>
    cases kind with
    | toolCall => exact Nat.le_succ _
    | _ => exact Nat.le_refl _
  | toolArgumentsDelta i s => exact (length_addFragment i s c).ge
  | _ => exact Nat.le_refl _

theorem length_le_calls (evs : List Event) (c : List ToolCall) :
    c.length ≤ (evs.foldl Event.callsAfter c).length := by
  induction evs generalizing c with
  | nil => exact Nat.le_refl _
  | cons v evs ih => exact (length_le_callsAfter v c).trans (ih _)

theorem eq_nil_of_done (hdone : e.done = true) (h : emitAll Encoder.write e evs = .ok (e', out)) :
    evs = [] ∧ out = [] := by
  cases evs with
  | nil =>
    cases h
    exact ⟨rfl, rfl⟩
  | cons v evs =>
    obtain ⟨_, _, _, hv, -⟩ := emitAll_cons_ok.1 h
    exact absurd (Encoder.write_ok hv).1 (by simp [hdone])

theorem done_of_terminal (h : e.Writes v e' out) (hlast : Terminal v) : e'.done = true := by
  cases h with
  | finish | streamError => rfl
  | _ => exact hlast.elim

theorem callsAfter_of_terminal (h : Terminal v) (c : List ToolCall) :
    v.callsAfter c = c ∧ v.text = "" := by
  cases v with
  | finish | streamError => exact ⟨rfl, rfl⟩
  | _ => exact h.elim

/-- **At most one call**: the translation of a stream whose frames all fit has
the same text, the same calls and the same finish. -/
theorem exists_decodes (hF : Follows e d) (hC : Calls e d c c')
    (hwrite : emitAll Encoder.write e evs = .ok (e', out)) (hflat : ∀ v ∈ evs, Flat v)
    (hcounted : ∀ v ∈ evs, Counted v) (hlast : ∃ v ∈ evs, Terminal v)
    (hone : (evs.foldl Event.callsAfter c).length ≤ 1) (hfits : ∀ f ∈ out, f.size ≤ maxEventBytes) :
    ∃ evs', decoder.Decodes d out evs' ∧ textOf evs' = textOf evs ∧
      (evs'.foldl Event.callsAfter c').map (fun c => (c.id, c.name, c.arguments)) =
        (evs.foldl Event.callsAfter c).map (fun c => (c.id, c.name, c.arguments)) ∧
      (finishesOf evs').map Finish.reason = (finishesOf evs).map Finish.reason := by
  induction evs generalizing e d c c' out with
  | nil =>
    obtain ⟨v, hv, -⟩ := hlast
    cases hv
  | cons v evs ih =>
    obtain ⟨e₁, frames, rest, hv, hrest, rfl⟩ := emitAll_cons_ok.1 hwrite
    have hw := (Encoder.write_ok hv).2
    have hfirst : ∀ f ∈ frames, f.size ≤ maxEventBytes := fun f hf => hfits f (mem_append_left _ hf)
    by_cases hterminal : Terminal v
    · -- the last event: nothing follows it
      obtain ⟨rfl, rfl⟩ := eq_nil_of_done (done_of_terminal hw hterminal) hrest
      obtain ⟨hcalls, htext⟩ := callsAfter_of_terminal hterminal c
      obtain ⟨evs', hend⟩ := exists_ending c' hF hw hterminal hfirst
      refine ⟨evs', by rw [append_nil]; exact hend.decodes, ?_, ?_, hend.reasons⟩
      · rw [hend.text, textOf, htext]
        rfl
      · rw [hend.calls, foldl_cons, hcalls]
        cases hC <;> rfl
    · have hone₁ : (v.callsAfter c).length ≤ 1 := (length_le_calls evs _).trans hone
      obtain ⟨d₁, first, hstep⟩ := exists_step hF hC hw (hflat v mem_cons_self)
        (hcounted v mem_cons_self) hterminal hone₁ hfirst
      have hlater := ((exists_mem_cons_iff _ _ _).1 hlast).resolve_left hterminal
      obtain ⟨evs', hdec, htext, hcalls, hreasons⟩ := ih hstep.follows hstep.calls hrest
        (fun w hw => hflat w (mem_cons_of_mem v hw))
        (fun w hw => hcounted w (mem_cons_of_mem v hw)) hlater hone
        fun f hf => hfits f (mem_append_right _ hf)
      refine ⟨first ++ evs', hstep.reads.decodes _ _ hdec, ?_, ?_, ?_⟩
      · rw [textOf_append, hstep.text, htext, textOf]
      · rw [foldl_append]
        exact hcalls
      · have hv : finishesOf (v :: evs) = finishesOf evs := by
          rw [finishesOf, filterMap_cons_none]
          · rfl
          · cases v with
            | finish => exact absurd trivial hterminal
            | _ => rfl
        rw [hv, ← hreasons, finishesOf, filterMap_append]
        show (finishesOf first ++ finishesOf evs').map _ = _
        rw [hstep.finishes, nil_append]

end Hoorific.Protocol.Chat
