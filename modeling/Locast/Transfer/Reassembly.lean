import Locast.Transfer.SharedChannel

/-!
# The reassembler on any sequence of messages

One `Reassembler` reads whatever the channel brings: the segments of frames, what is left of sends
that failed, and messages that no honest peer writes.  Whole transmissions come out as their frames,
in order; nothing else comes out but errors and frames that were spelled out segment by segment; and
the open frame never outgrows its bound.
-/

namespace Locast.Transfer

open Locast.Lib

/-! ### Feeding a reassembler -/

/-- One message: the pump skips what is shorter than a header and hands on the rest. -/
def Reassembler.feed (r : Reassembler) : Bytes → Reassembler × List (Except SegmentError Bytes)
  | a :: b :: c :: d :: payload =>
    match r.push (fromBeBytes a b) (fromBeBytes c d) payload with
    | (.error e, r') => (r', [.error e])
    | (.ok none, r') => (r', [])
    | (.ok (some frame), r') => (r', [.ok frame])
  | _ => (r, [])

/-- The messages one after another, and all that they yield. -/
def Reassembler.feedAll (r : Reassembler) :
    List Bytes → Reassembler × List (Except SegmentError Bytes)
  | [] => (r, [])
  | msg :: msgs =>
    (((r.feed msg).1.feedAll msgs).1, (r.feed msg).2 ++ ((r.feed msg).1.feedAll msgs).2)

/-- A fresh reassembler: `Reassembler::default()`. -/
def Reassembler.fresh : Reassembler := none

/-- What a fresh reassembler yields. -/
def yielded (msgs : List Bytes) : List (Except SegmentError Bytes) :=
  (Reassembler.fresh.feedAll msgs).2

/-- The bytes that it holds. -/
def Reassembler.buffered (r : Reassembler) : ℕ := (r.map fun frame => frame.payload.length).getD 0

lemma feedAll_append (r : Reassembler) (w w' : List Bytes) :
    r.feedAll (w ++ w') = (((r.feedAll w).1.feedAll w').1,
      (r.feedAll w).2 ++ ((r.feedAll w).1.feedAll w').2) := by
  induction w generalizing r with
  | nil => rfl
  | cons msg w ih => rw [List.cons_append, Reassembler.feedAll, ih, Reassembler.feedAll,
      List.append_assoc]

lemma feedAll_concat (r : Reassembler) (w : List Bytes) (msg : Bytes) :
    r.feedAll (w ++ [msg]) =
      (((r.feedAll w).1.feed msg).1, (r.feedAll w).2 ++ ((r.feedAll w).1.feed msg).2) := by
  rw [feedAll_append]
  simp [Reassembler.feedAll]

/-! ### Transmissions -/

/-- What a program writes to a channel that takes `k` more messages and then reports an error, and
its result. -/
def overChannel {α : Type} : Prog Write Write.Resp α → ℕ → List Bytes × α
  | .ret a, _ => ([], a)
  | .op (.dcSend msg) cont, k + 1 =>
    (msg :: (overChannel (cont (Except.ok ())) k).1, (overChannel (cont (Except.ok ())) k).2)
  | .op (.dcSend _) cont, 0 => overChannel (cont (Except.error "closed")) 0

/-- A frame that is sent over a channel which takes so many of its segments. -/
structure Transmission where
  frame : Bytes
  segments : ℕ

/-- The messages that `send` has put on the channel. -/
def Transmission.written (t : Transmission) : List Bytes :=
  (overChannel (send t.frame) t.segments).1

/-- `send` has reported success. -/
def Transmission.completed (t : Transmission) : Bool :=
  (overChannel (send t.frame) t.segments).2.toBool

lemma overChannel_writeAll (msgs : List Bytes) (k : ℕ) : overChannel (writeAll msgs) k =
    (msgs.take k, if msgs.length ≤ k then .ok () else .error (.io "closed")) := by
  induction msgs generalizing k with
  | nil => simp [writeAll, overChannel]
  | cons msg msgs ih =>
    cases k with
    | zero => simp [writeAll, overChannel]
    | succ k => simp [writeAll, overChannel, ih]

variable {t : Transmission}

/-- **What `send` leaves on the channel**: the first segments of the frame. -/
lemma written_eq (hsmall : t.frame.length ≤ maxReassembledBytes) :
    t.written = (messages t.frame).take t.segments := by
  rw [Transmission.written, send, if_neg (Nat.not_lt.2 hsmall), overChannel_writeAll]

/-- It reports success when that is all of them. -/
lemma completed_iff (hsmall : t.frame.length ≤ maxReassembledBytes) :
    t.completed = true ↔ segmentCount t.frame ≤ t.segments := by
  have hreports (n : ℕ) : (if n ≤ t.segments then Except.ok ()
      else .error (TransportError.io "closed")).toBool = true ↔ n ≤ t.segments := by
    by_cases hall : n ≤ t.segments <;> simp [hall, Except.toBool]
  rw [Transmission.completed, send, if_neg (Nat.not_lt.2 hsmall), overChannel_writeAll,
    length_messages]
  exact hreports _

/-! ### Whole transmissions -/

/-- While the pump finds no violation it yields what the reassembler does. -/
lemma feed_of_onMessage {p : Pump} {msg : Bytes} (hv : p.violation = none)
    (hv' : (p.onMessage msg).violation = none) :
    (p.reassembler.feed msg).1 = (p.onMessage msg).reassembler ∧
      (p.onMessage msg).delivered.map Except.ok =
        p.delivered.map Except.ok ++ (p.reassembler.feed msg).2 := by
  unfold Pump.onMessage at hv' ⊢
  rw [if_neg (by simp [hv])] at hv' ⊢
  rcases msg with _ | ⟨a, _ | ⟨b, _ | ⟨c, _ | ⟨d, payload⟩⟩⟩⟩
  case cons.cons.cons.cons =>
    unfold Reassembler.feed
    dsimp only at hv' ⊢
    rcases hpush : p.reassembler.push (fromBeBytes a b) (fromBeBytes c d) payload with ⟨out, r⟩
    rw [hpush] at hv'
    rcases out with e | (_ | frame)
    · cases hv'
    · exact ⟨rfl, by simp⟩
    · exact ⟨rfl, by simp⟩
  all_goals exact ⟨rfl, by simp [Reassembler.feed]⟩

lemma violation_kept_foldl {p : Pump} (hv : p.violation ≠ none) (w : List Bytes) :
    (w.foldl Pump.onMessage p).violation ≠ none := by
  induction w generalizing p with
  | nil => exact hv
  | cons msg w ih => exact ih (violation_kept msg hv)

lemma feedAll_of_foldl {p : Pump} {w : List Bytes}
    (hv : (w.foldl Pump.onMessage p).violation = none) :
    (p.reassembler.feedAll w).1 = (w.foldl Pump.onMessage p).reassembler ∧
      (w.foldl Pump.onMessage p).delivered.map Except.ok =
        p.delivered.map Except.ok ++ (p.reassembler.feedAll w).2 := by
  induction w generalizing p with
  | nil => exact ⟨rfl, by simp [Reassembler.feedAll]⟩
  | cons msg w ih =>
    rw [List.foldl_cons] at hv ⊢
    have hmsg : (p.onMessage msg).violation = none := by
      by_contra hno
      exact violation_kept_foldl hno w hv
    have hbefore : p.violation = none := by
      by_contra hno
      exact violation_kept msg hno hmsg
    obtain ⟨hr, hd⟩ := feed_of_onMessage hbefore hmsg
    obtain ⟨hr', hd'⟩ := ih hv
    rw [Reassembler.feedAll, hr]
    exact ⟨hr', by rw [hd', hd, List.append_assoc]⟩

/-- A transmission delivers its frame when it is complete, and nothing otherwise. -/
lemma foldl_written {p : Pump} (hv : p.violation = none)
    (hsmall : t.frame.length ≤ maxReassembledBytes) (hne : t.frame ≠ []) :
    (t.written.foldl Pump.onMessage p).violation = none ∧
      (t.written.foldl Pump.onMessage p).delivered =
        p.delivered ++ if t.completed then [t.frame] else [] := by
  rw [written_eq hsmall]
  by_cases hall : segmentCount t.frame ≤ t.segments
  · rw [List.take_of_length_le (by rw [length_messages]; exact hall)]
    rw [if_pos ((completed_iff hsmall).2 hall)]
    exact foldl_messages hv hsmall hne
  · have hr := reading_take (p := p) hv hsmall (Nat.lt_of_not_le hall)
    rw [if_neg fun hc => hall ((completed_iff hsmall).1 hc), List.append_nil]
    exact ⟨hr.clean, hr.delivered⟩

lemma foldl_flatMap_written {p : Pump} (hv : p.violation = none) {ts : List Transmission}
    (hsmall : ∀ t ∈ ts, t.frame.length ≤ maxReassembledBytes) (hne : ∀ t ∈ ts, t.frame ≠ []) :
    ((ts.flatMap Transmission.written).foldl Pump.onMessage p).violation = none ∧
      ((ts.flatMap Transmission.written).foldl Pump.onMessage p).delivered =
        p.delivered ++ (ts.filter Transmission.completed).map Transmission.frame := by
  induction ts generalizing p with
  | nil => exact ⟨hv, by simp⟩
  | cons t ts ih =>
    obtain ⟨hv₁, hd₁⟩ := foldl_written hv (hsmall t (by simp)) (hne t (by simp))
    obtain ⟨hv₂, hd₂⟩ := ih hv₁ (fun t' ht' => hsmall t' (by simp [ht']))
      fun t' ht' => hne t' (by simp [ht'])
    rw [List.flatMap_cons, List.foldl_append]
    refine ⟨hv₂, ?_⟩
    rw [hd₂, hd₁, List.filter_cons, List.append_assoc]
    by_cases hc : t.completed <;> simp [hc]

/-- The frames of whole transmissions come out, in order. -/
lemma yielded_written {ts : List Transmission}
    (hsmall : ∀ t ∈ ts, t.frame.length ≤ maxReassembledBytes) (hne : ∀ t ∈ ts, t.frame ≠ []) :
    yielded (ts.flatMap Transmission.written) =
      (ts.filter Transmission.completed).map fun t => .ok t.frame := by
  obtain ⟨hv, hd⟩ := foldl_flatMap_written (p := Pump.start) rfl hsmall hne
  have hfeed := (feedAll_of_foldl hv).2
  rw [hd] at hfeed
  simpa [Pump.start, yielded, Reassembler.fresh, List.map_map, Function.comp_def] using hfeed.symm

/-! ### Any messages -/

/-- The message is long enough to have a header. -/
def hasHeader (msg : Bytes) : Bool := 4 ≤ msg.length

/-- **A frame spelled out**: a start segment and its continuations, as many as they declare, with
nothing between them that has a header. -/
structure Spells (segments : List Bytes) (frame : Bytes) : Prop where
  exact : ∃ payloads : List Bytes,
    segments.filter hasHeader = payloads.mapIdx (message payloads.length) ∧
      payloads.flatten = frame
  starts : ∀ msg ∈ segments.head?, hasHeader msg
  small : frame.length ≤ maxReassembledBytes

/-- The frames were spelled out in the messages, one after another; between them stands anything. -/
inductive Reads : List Bytes → List Bytes → Prop
  | nil : Reads [] []
  | skip {w frames : List Bytes} (msg : Bytes) (h : Reads w frames) : Reads (w ++ [msg]) frames
  | frame {w frames segments : List Bytes} {frame : Bytes} (h : Reads w frames)
    (hs : Spells segments frame) : Reads (w ++ segments) (frames ++ [frame])

/-- The frames among what was yielded. -/
def framesOf (out : List (Except SegmentError Bytes)) : List Bytes := out.filterMap Except.toOption

/-! ### The invariant -/

/-- The messages of an open frame: its segments so far. -/
structure Begun (w frames : List Bytes) (f : PendingFrame) (segments payloads : List Bytes) :
    Prop where
  read : ∃ before, w = before ++ segments ∧ Reads before frames
  carried : segments.filter hasHeader = payloads.mapIdx (message f.totalSegments)
  received : payloads.length = f.received
  payload : payloads.flatten = f.payload
  starts : ∀ msg ∈ segments.head?, hasHeader msg

/-- **What the reassembler knows**: the frames so far were spelled out, and the open one is
begun. -/
structure Parsing (w : List Bytes) (r : Reassembler) (frames : List Bytes) : Prop where
  read : Reads w frames
  begun : ∀ f ∈ r, 0 < f.received ∧ f.payload.length ≤ maxReassembledBytes ∧
    ∃ segments payloads, Begun w frames f segments payloads

lemma toBeBytes_fromBeBytes (a b : UInt8) : toBeBytes (fromBeBytes a b) = [a, b] := by
  have ha := a.toNat_lt
  have hb := b.toNat_lt
  unfold toBeBytes fromBeBytes
  rw [show (a.toNat * 256 + b.toNat) / 256 = a.toNat by omega]
  congr 1
  · exact UInt8.ofNat_toNat
  · congr 1
    refine UInt8.toNat_inj.1 ?_
    rw [UInt8.toNat_ofNat']
    omega

/-- A message with a header is the segment that its header says. -/
lemma message_of_header (a b c d : UInt8) (payload : Bytes) :
    message (fromBeBytes a b) (fromBeBytes c d) payload = a :: b :: c :: d :: payload := by
  rw [message, toBeBytes_fromBeBytes, toBeBytes_fromBeBytes]
  rfl

/-- What a push that is accepted has checked and what it leaves. -/
lemma pushInner_eq_ok {r r' : Reassembler} {total index : ℕ} {payload : Bytes} {out : Option Bytes}
    (h : r.pushInner total index payload = .ok (out, r')) :
    ∃ f : PendingFrame, (if index = 0 then some ⟨total, 0, []⟩ else r) = some f ∧
      f.totalSegments = total ∧ index = f.received ∧
      (f.payload ++ payload).length ≤ maxReassembledBytes ∧
      (index + 1 = total ∧ out = some (f.payload ++ payload) ∧ r' = none ∨
        out = none ∧ r' = some ⟨total, index + 1, f.payload ++ payload⟩) := by
  unfold Reassembler.pushInner at h
  split at h
  · cases h
  split at h
  · cases h
  rename_i f hf
  split at h
  · cases h
  rename_i htotal
  split at h
  · cases h
  rename_i hindex
  split at h
  · cases h
  rename_i hfit
  rw [not_not] at htotal hindex
  refine ⟨f, hf, htotal, hindex, by rw [List.length_append]; omega, ?_⟩
  dsimp only at h
  split at h
  · rename_i hlast
    cases h
    exact .inl ⟨by omega, rfl, rfl⟩
  · cases h
    exact .inr ⟨rfl, by rw [htotal, hindex]⟩

variable {w frames : List Bytes} {r : Reassembler}

/-- The frame that an accepted segment belongs to is begun, or it begins here. -/
lemma Parsing.current (h : Parsing w r frames) {total index : ℕ} {f : PendingFrame}
    (hf : (if index = 0 then some ⟨total, 0, []⟩ else r) = some f) :
    ∃ segments payloads, Begun w frames f segments payloads := by
  by_cases hindex : index = 0
  · rw [if_pos hindex] at hf
    obtain rfl := Option.some.inj hf
    exact ⟨[], [], ⟨w, by simp, h.read⟩, rfl, rfl, rfl, by simp⟩
  · rw [if_neg hindex] at hf
    exact (h.begun f hf).2.2

/-- A segment more. -/
lemma Begun.append {f : PendingFrame} {segments payloads : List Bytes}
    (h : Begun w frames f segments payloads) {msg payload : Bytes}
    (hmsg : msg = message f.totalSegments f.received payload) :
    Begun (w ++ [msg]) frames ⟨f.totalSegments, f.received + 1, f.payload ++ payload⟩
      (segments ++ [msg]) (payloads ++ [payload]) := by
  obtain ⟨before, rfl, hread⟩ := h.read
  have hheader : hasHeader msg := by
    rw [hmsg]
    simp [hasHeader, message, toBeBytes]
  refine ⟨⟨before, List.append_assoc _ _ _, hread⟩, ?_, ?_, ?_, fun m hm => ?_⟩
  · rw [List.filter_append, h.carried, List.mapIdx_concat, h.received, hmsg]
    simpa [hmsg] using hheader
  · rw [List.length_append, h.received]
    rfl
  · rw [List.flatten_append, h.payload]
    simp
  · cases segments with
    | nil =>
      obtain rfl : msg = m := by simpa using hm
      exact hheader
    | cons m' segments => exact h.starts m hm

/-- A message without a header in between. -/
lemma Begun.skip {f : PendingFrame} {segments payloads : List Bytes}
    (h : Begun w frames f segments payloads) (hpos : 0 < f.received) {msg : Bytes}
    (hmsg : hasHeader msg = false) :
    Begun (w ++ [msg]) frames f (segments ++ [msg]) payloads := by
  obtain ⟨before, rfl, hread⟩ := h.read
  refine ⟨⟨before, List.append_assoc _ _ _, hread⟩, ?_, h.received, h.payload, fun m hm => ?_⟩
  · rw [List.filter_append, h.carried]
    simp [hmsg]
  · cases segments with
    | nil =>
      have hlen := congrArg List.length h.carried
      rw [List.length_mapIdx, h.received] at hlen
      exact absurd hlen (by simp; omega)
    | cons m' segments => exact h.starts m hm

/-- **The step lemma of the reassembler.** -/
lemma Parsing.feed (h : Parsing w r frames) (msg : Bytes) :
    Parsing (w ++ [msg]) (r.feed msg).1 (frames ++ framesOf (r.feed msg).2) := by
  have hnone : framesOf ([] : List (Except SegmentError Bytes)) = [] := rfl
  by_cases hheader : hasHeader msg
  · obtain ⟨a, b, c, d, payload, rfl⟩ : ∃ a b c d payload, msg = a :: b :: c :: d :: payload := by
      rcases msg with _ | ⟨a, _ | ⟨b, _ | ⟨c, _ | ⟨d, payload⟩⟩⟩⟩
      case cons.cons.cons.cons => exact ⟨a, b, c, d, payload, rfl⟩
      all_goals exact absurd hheader (by simp [hasHeader])
    have hmsg := message_of_header a b c d payload
    rw [Reassembler.feed, Reassembler.push]
    rcases hpush : r.pushInner (fromBeBytes a b) (fromBeBytes c d) payload with e | ⟨out, r'⟩
    · -- an error: nothing is open any more
      have herror : framesOf [(.error e : Except SegmentError Bytes)] = [] := rfl
      rw [herror, List.append_nil]
      exact ⟨h.read.skip _, fun f hf => (Option.not_mem_none _ hf).elim⟩
    obtain ⟨f, hf, htotal, hindex, hfit, hends⟩ := pushInner_eq_ok hpush
    obtain ⟨segments, payloads, hbegun⟩ := h.current hf
    have hnext := @Begun.append _ _ _ _ _ hbegun (a :: b :: c :: d :: payload) payload
      (by rw [htotal, ← hindex, hmsg])
    rw [htotal, ← hindex] at hnext
    rcases hends with ⟨hlast, rfl, rfl⟩ | ⟨rfl, rfl⟩
    · -- the last segment
      obtain ⟨before, hw, hread⟩ := hnext.read
      have hlen := hnext.received
      have hspells : Spells (segments ++ [a :: b :: c :: d :: payload]) (f.payload ++ payload) :=
        ⟨⟨payloads ++ [payload], by rw [hlen, hlast]; exact hnext.carried, hnext.payload⟩,
          hnext.starts, hfit⟩
      refine ⟨?_, fun f hf => (Option.not_mem_none _ hf).elim⟩
      rw [hw]
      simpa [framesOf, Except.toOption] using hread.frame hspells
    · -- a segment before the last
      dsimp only
      rw [hnone, List.append_nil]
      refine ⟨h.read.skip _, fun f' hf' => ?_⟩
      obtain rfl := Option.some.inj hf'
      exact ⟨Nat.succ_pos _, hfit, _, _, hnext⟩
  · have hfeed : r.feed msg = (r, []) := by
      rcases msg with _ | ⟨a, _ | ⟨b, _ | ⟨c, _ | ⟨d, payload⟩⟩⟩⟩
      case cons.cons.cons.cons => exact absurd (by simp [hasHeader]) hheader
      all_goals rfl
    rw [hfeed]
    dsimp only
    rw [hnone, List.append_nil]
    refine ⟨h.read.skip msg, fun f hf => ?_⟩
    obtain ⟨hpos, hsmall, segments, payloads, hbegun⟩ := h.begun f hf
    exact ⟨hpos, hsmall, _, _, hbegun.skip hpos (by simpa using hheader)⟩

/-- Whatever the channel brings. -/
lemma parsing_feedAll (msgs : List Bytes) :
    Parsing msgs (Reassembler.fresh.feedAll msgs).1 (framesOf (yielded msgs)) := by
  induction msgs using List.reverseRecOn with
  | nil => exact ⟨.nil, fun f hf => (Option.not_mem_none _ hf).elim⟩
  | append_singleton msgs msg ih =>
    have hstep := ih.feed msg
    rw [yielded, feedAll_concat, framesOf, List.filterMap_append]
    exact hstep

/-- **Segmentation is exact.**  A send puts the first segments of its frame on the channel, as many
as the channel takes, and succeeds when these are all; the frames whose send succeeded come out, in
order; whatever else the channel brings, only frames that were spelled out come out beside errors;
and the open frame is never larger than `MAX_REASSEMBLED_BYTES`. -/
theorem segmentation_exact :
    (∀ t : Transmission, t.frame.length ≤ maxReassembledBytes →
      t.written = (messages t.frame).take t.segments ∧
        (t.completed = true ↔ (messages t.frame).length ≤ t.segments)) ∧
    (∀ ts : List Transmission,
      (∀ t ∈ ts, 1 ≤ t.frame.length ∧ t.frame.length ≤ maxReassembledBytes) →
      yielded (ts.flatMap Transmission.written) =
        (ts.filter Transmission.completed).map fun t => .ok t.frame) ∧
    (∀ msgs : List Bytes, Reads msgs (framesOf (yielded msgs))) ∧
    ∀ msgs : List Bytes, (Reassembler.fresh.feedAll msgs).1.buffered ≤ maxReassembledBytes := by
  refine ⟨fun t ht => ⟨written_eq ht, ?_⟩, fun ts hts => ?_,
    fun msgs => (parsing_feedAll msgs).read, fun msgs => ?_⟩
  · rw [completed_iff ht, length_messages]
  · refine yielded_written (fun t ht => (hts t ht).2) fun t ht hnil => ?_
    have hpos := (hts t ht).1
    rw [hnil] at hpos
    exact absurd hpos (by simp)
  · have hparsing := parsing_feedAll msgs
    unfold Reassembler.buffered
    cases hr : (Reassembler.fresh.feedAll msgs).1 with
    | none => exact Nat.zero_le _
    | some f => exact (hparsing.begun f hr).2.1

/-! ### Frames of several segments -/

namespace Several

/-- Three segments, of which the channel takes two. -/
def abandoned : Transmission := ⟨List.replicate 40000 1, 2⟩

/-- Two full segments. -/
def exactly : Transmission := ⟨List.replicate 32760 2, 2⟩

/-- A short segment behind two full ones, on a channel that would take more. -/
def long : Transmission := ⟨List.replicate 32761 3, 9⟩

lemma fits : ∀ t ∈ [abandoned, exactly, long],
    1 ≤ t.frame.length ∧ t.frame.length ≤ maxReassembledBytes := by
  simp only [abandoned, exactly, long, List.forall_mem_cons, List.length_replicate]
  decide

lemma length_segments : (messages abandoned.frame).length = 3 ∧
    (messages exactly.frame).length = 2 ∧ (messages long.frame).length = 3 := by
  simp only [length_messages, segmentCount, abandoned, exactly, long, List.length_replicate]
  decide

end Several

/-- A frame that is given up after two of its three segments, then one of two full segments and one
of three. -/
theorem segmentation_exact_several :
    Several.abandoned.written = (messages Several.abandoned.frame).take 2 ∧
      Several.abandoned.completed = false ∧ Several.exactly.completed = true ∧
      Several.long.completed = true ∧
      yielded ([Several.abandoned, Several.exactly, Several.long].flatMap Transmission.written) =
        [.ok Several.exactly.frame, .ok Several.long.frame] := by
  obtain ⟨hsends, hyields, -, -⟩ := segmentation_exact
  have hsmall {t : Transmission} (ht : t ∈ [Several.abandoned, Several.exactly, Several.long]) :=
    (Several.fits t ht).2
  have ha := hsends Several.abandoned (hsmall (by simp))
  obtain ⟨hna, hne, hnl⟩ := Several.length_segments
  have hgiven : Several.abandoned.completed = false := by
    rw [Bool.eq_false_iff, Ne, ha.2, hna]
    decide
  have hexact : Several.exactly.completed = true :=
    (hsends _ (hsmall (by simp))).2.2 (hne ▸ by decide)
  have hlong : Several.long.completed = true := (hsends _ (hsmall (by simp))).2.2 (hnl ▸ by decide)
  refine ⟨ha.1, hgiven, hexact, hlong, ?_⟩
  rw [hyields _ Several.fits, List.filter_cons, hgiven, List.filter_cons, hexact, List.filter_cons,
    hlong]
  rfl

end Locast.Transfer
