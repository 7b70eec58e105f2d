import Locast.Lib.Past
import Locast.Transfer.Segments
import Mathlib.Data.List.Induction

/-!
# Frames on a shared channel

The reassembler has room for one frame, and a send writes its segments one by one.  So the frames
that arrive are the frames that were sent exactly when the segments of each are written one after
another, with nothing between them.
-/

namespace Locast.Transfer

open Locast.Lib
open Locast.Lib.System (Did.record)

/-! ### Segments -/

lemma fromBeBytes_toBeBytes {n : ℕ} (h : n < 2 ^ 16) :
    fromBeBytes (UInt8.ofNat (n / 256)) (UInt8.ofNat n) = n := by
  simp only [fromBeBytes, UInt8.toNat_ofNat']
  omega

/-- What a segment of a frame looks like: all but the last are full. -/
structure IsSegment (total index : ℕ) (payload : Bytes) : Prop where
  lt : index < total
  total_le : total ≤ maxSegmentsPerFrame
  nonempty : payload ≠ []
  le : payload.length ≤ segmentPayload
  full : index + 1 < total → payload.length = segmentPayload
  fits : index * segmentPayload + payload.length ≤ maxReassembledBytes

lemma segmentPayload_eq : segmentPayload = 16380 := rfl
lemma maxReassembledBytes_eq : maxReassembledBytes = 1048580 := rfl
lemma maxSegmentsPerFrame_eq : maxSegmentsPerFrame = 65 := rfl

/-- The number of segments of a frame that may be sent. -/
def segmentCount (frame : Bytes) : ℕ := divCeil frame.length segmentPayload

lemma totalSegments_eq {frame : Bytes} (h : frame.length ≤ maxReassembledBytes) :
    totalSegments frame = segmentCount frame ∧ segmentCount frame ≤ maxSegmentsPerFrame := by
  rw [maxReassembledBytes_eq] at h
  unfold totalSegments segmentCount divCeil
  rw [segmentPayload_eq, maxSegmentsPerFrame_eq]
  omega

lemma isSegment_piece {frame : Bytes} (h : frame.length ≤ maxReassembledBytes) {i : ℕ}
    (hi : i < segmentCount frame) : IsSegment (totalSegments frame) i (piece frame i) := by
  obtain ⟨htotal, hle⟩ := totalSegments_eq h
  have hlen : (piece frame i).length = min segmentPayload (frame.length - i * segmentPayload) := by
    simp [piece]
  have hcount : segmentCount frame = (frame.length + segmentPayload - 1) / segmentPayload := rfl
  rw [segmentPayload_eq] at hlen hcount
  rw [maxReassembledBytes_eq] at h
  refine ⟨htotal ▸ hi, htotal ▸ hle, fun hnil => ?_, ?_, fun hlt => ?_, ?_⟩
  · rw [hnil, List.length_nil] at hlen
    omega
  · rw [hlen, segmentPayload_eq]
    omega
  · rw [hlen, segmentPayload_eq]
    omega
  · rw [hlen, segmentPayload_eq, maxReassembledBytes_eq]
    omega

/-- A frame is its full pieces and a last one. -/
lemma messages_append {total : ℕ} {payload last : Bytes} (ht : 0 < total)
    (hp : payload.length = (total - 1) * segmentPayload) (hne : last ≠ [])
    (hle : last.length ≤ segmentPayload) (hsmall : total ≤ maxSegmentsPerFrame) :
    messages (payload ++ last) =
      ((List.range (total - 1)).map fun j => message total j (piece payload j)) ++
        [message total (total - 1) last] := by
  have hpos : 0 < last.length := List.length_pos_iff.2 hne
  rw [segmentPayload_eq] at hp hle
  rw [maxSegmentsPerFrame_eq] at hsmall
  have hcount : divCeil (payload ++ last).length segmentPayload = total := by
    rw [divCeil, List.length_append, segmentPayload_eq, hp]
    omega
  have htotal : totalSegments (payload ++ last) = total := by
    rw [totalSegments, hcount]
    omega
  obtain ⟨k, rfl⟩ : ∃ k, total = k + 1 := ⟨total - 1, by omega⟩
  rw [messages, hcount, htotal, List.range_succ, List.map_append, Nat.add_sub_cancel]
  rw [Nat.add_sub_cancel] at hp
  congr 1
  · refine List.map_congr_left fun j hj => ?_
    have hj : j < k := List.mem_range.1 hj
    have hlt : j * segmentPayload + segmentPayload ≤ payload.length := by
      rw [segmentPayload_eq, hp]
      omega
    rw [piece, piece, List.drop_append_of_le_length (by omega), List.take_append_of_le_length]
    rw [List.length_drop]
    omega
  · have hpiece : piece (payload ++ last) k = last := by
      rw [piece, segmentPayload_eq, ← hp, List.drop_left]
      exact List.take_of_length_le hle
    rw [List.map_singleton, hpiece]

/-! ### One message -/

/-- The frame that a segment continues, or opens. -/
def Pump.current (p : Pump) (total index : ℕ) : Reassembler :=
  if index = 0 then some ⟨total, 0, []⟩ else p.reassembler

/-- The pump with one more segment of its open frame. -/
def Pump.accept (p : Pump) (total index : ℕ) (payload : Bytes) : Pump :=
  if index + 1 = total then
    { p with reassembler := none, delivered := p.delivered ++ [payload] }
  else { p with reassembler := some ⟨total, index + 1, payload⟩ }

variable {p : Pump} {total index : ℕ} {payload : Bytes}

/-- An open pump hands a message to the reassembler under the numbers of its header. -/
lemma onMessage_header {a b c d : UInt8} (hopen : ¬p.violation.isSome)
    (ht : fromBeBytes a b = total) (hi : fromBeBytes c d = index) :
    p.onMessage (a :: b :: c :: d :: payload) =
      match p.reassembler.push total index payload with
      | (.error e, r) => { p with reassembler := r, violation := some e }
      | (.ok none, r) => { p with reassembler := r }
      | (.ok (some frame), r) =>
        { p with reassembler := r, delivered := p.delivered ++ [frame] } := by
  subst ht hi
  exact if_neg hopen

lemma onMessage_message (hs : IsSegment total index payload) (hv : p.violation = none) :
    p.onMessage (message total index payload) =
      match p.reassembler.push total index payload with
      | (.error e, r) => { p with reassembler := r, violation := some e }
      | (.ok none, r) => { p with reassembler := r }
      | (.ok (some frame), r) =>
        { p with reassembler := r, delivered := p.delivered ++ [frame] } := by
  have hle := hs.total_le
  have hlt := hs.lt
  rw [maxSegmentsPerFrame_eq] at hle
  have ht : fromBeBytes (UInt8.ofNat (total / 256)) (UInt8.ofNat total) = total :=
    fromBeBytes_toBeBytes (by omega)
  have hi : fromBeBytes (UInt8.ofNat (index / 256)) (UInt8.ofNat index) = index :=
    fromBeBytes_toBeBytes (by omega)
  exact onMessage_header (by simp [hv]) ht hi

/-- A segment of the open frame is accepted. -/
lemma onMessage_of_current (hs : IsSegment total index payload) (hv : p.violation = none)
    {done : Bytes} (hc : p.current total index = some ⟨total, index, done⟩)
    (hlen : done.length = index * segmentPayload) :
    p.onMessage (message total index payload) = p.accept total index (done ++ payload) := by
  have hpos : ¬(total = 0 ∨ maxSegmentsPerFrame < total) := by
    have := hs.total_le
    have := hs.lt
    omega
  have hfit : ¬maxReassembledBytes < done.length + payload.length := by
    rw [hlen]
    exact Nat.not_lt.2 hs.fits
  rw [Pump.current] at hc
  rw [onMessage_message hs hv, Reassembler.push, Reassembler.pushInner, if_neg hpos, hc]
  simp only [ne_eq, not_true_eq_false, if_false, if_neg hfit, Pump.accept]
  by_cases hlast : index + 1 = total
  · simp only [if_pos hlast]
  · simp only [if_neg hlast]

/-- Any other segment is a violation. -/
lemma violation_of_current (hs : IsSegment total index payload) (hv : p.violation = none)
    (hc : ∀ done, p.current total index ≠ some ⟨total, index, done⟩) :
    (p.onMessage (message total index payload)).violation.isSome = true := by
  have hpos : ¬(total = 0 ∨ maxSegmentsPerFrame < total) := by
    have := hs.total_le
    have := hs.lt
    omega
  rw [onMessage_message hs hv, Reassembler.push, Reassembler.pushInner, if_neg hpos]
  unfold Pump.current at hc
  cases hr : (if index = 0 then some (⟨total, 0, []⟩ : PendingFrame) else p.reassembler) with
  | none => rfl
  | some frame =>
    obtain ⟨total', received, done⟩ := frame
    rw [hr] at hc
    dsimp only
    by_cases htotal : total' = total
    · by_cases hindex : index = received
      · subst htotal hindex
        exact absurd rfl (hc done)
      · rw [if_neg (not_not.2 htotal), if_pos hindex]
        rfl
    · rw [if_pos htotal]
      rfl

/-! ### What the pump has read -/

/-- The segments of the open frame that have arrived. -/
def arrived : Reassembler → List Bytes
  | none => []
  | some frame => (List.range frame.received).map fun j =>
    message frame.totalSegments j (piece frame.payload j)

/-- **What was read is what was delivered**, up to segments of frames that were abandoned. -/
structure Parsed (w : List Bytes) (p : Pump) : Prop where
  clean : p.violation = none
  begun : ∀ frame ∈ p.reassembler, 0 < frame.received ∧ frame.received < frame.totalSegments ∧
    frame.payload.length = frame.received * segmentPayload
  nonempty : ∀ frame ∈ p.delivered, frame ≠ []
  read : ∃ waste, w.length =
      (p.delivered.map segmentCount).sum + waste + (arrived p.reassembler).length ∧
    (waste = 0 → w = p.delivered.flatMap messages ++ arrived p.reassembler)

lemma length_messages (frame : Bytes) : (messages frame).length = segmentCount frame := by
  simp [messages, segmentCount]

variable {w : List Bytes}

/-- A segment that opens or continues a frame: what was read before it, seen from that frame. -/
lemma Parsed.read_current (h : Parsed w p) (done : Bytes)
    (hc : p.current total index = some ⟨total, index, done⟩) :
    done.length = index * segmentPayload ∧ ∃ waste, w.length =
        (p.delivered.map segmentCount).sum + waste + index ∧
      (waste = 0 → w = p.delivered.flatMap messages ++ arrived (some ⟨total, index, done⟩)) := by
  obtain ⟨waste, hlen, hread⟩ := h.read
  rw [Pump.current] at hc
  by_cases hi : index = 0
  · subst hi
    obtain rfl : [] = done := by simpa using hc
    refine ⟨by simp, waste + (arrived p.reassembler).length, by omega, fun h0 => ?_⟩
    have hnil : arrived p.reassembler = [] := List.length_eq_zero_iff.1 (by omega)
    rw [hread (by omega), hnil]
    rfl
  · rw [if_neg hi] at hc
    obtain ⟨-, -, hpay⟩ := h.begun _ hc
    rw [hc] at hread hlen
    refine ⟨hpay, waste, ?_, hread⟩
    simpa [arrived] using hlen

/-- One more segment of a frame has arrived. -/
lemma arrived_append (hs : IsSegment total index payload) {done : Bytes}
    (hlen : done.length = index * segmentPayload) (hlt : index + 1 < total) :
    arrived (some ⟨total, index + 1, done ++ payload⟩) =
      arrived (some ⟨total, index, done⟩) ++ [message total index payload] := by
  have hfull := hs.full hlt
  simp only [arrived, List.range_succ, List.map_append, List.map_singleton]
  congr 1
  · refine List.map_congr_left fun j hj => ?_
    have hj : j < index := List.mem_range.1 hj
    have hle : j * segmentPayload + segmentPayload ≤ done.length := by
      rw [hlen, segmentPayload_eq]
      omega
    rw [piece, piece, List.drop_append_of_le_length (by omega), List.take_append_of_le_length]
    rw [List.length_drop]
    omega
  · rw [piece, ← hlen, List.drop_left, ← hfull, List.take_length]

/-- **The step lemma of the pump.** -/
lemma Parsed.onMessage (h : Parsed w p) (hs : IsSegment total index payload)
    (hv : (p.onMessage (message total index payload)).violation = none) :
    Parsed (w ++ [message total index payload]) (p.onMessage (message total index payload)) := by
  obtain ⟨done, hc⟩ : ∃ done, p.current total index = some ⟨total, index, done⟩ := by
    by_contra hno
    have hsome := violation_of_current hs h.clean fun done hd => hno ⟨done, hd⟩
    rw [hv] at hsome
    cases hsome
  obtain ⟨hlen, waste, hcount, hread⟩ := h.read_current done hc
  rw [onMessage_of_current hs h.clean hc hlen, Pump.accept]
  by_cases hlast : index + 1 = total
  · rw [if_pos hlast]
    have hpos : 0 < total := by omega
    obtain rfl : index = total - 1 := by omega
    have hmsgs : messages (done ++ payload) =
        arrived (some ⟨total, total - 1, done⟩) ++ [message total (total - 1) payload] :=
      messages_append hpos hlen hs.nonempty hs.le hs.total_le
    have hseg : segmentCount (done ++ payload) = total - 1 + 1 := by
      rw [← length_messages, hmsgs]
      simp [arrived]
    refine ⟨h.clean, fun frame hf => (Option.not_mem_none _ hf).elim, fun frame hf => ?_, waste, ?_,
      fun h0 => ?_⟩
    · rcases List.mem_append.1 hf with hf | hf
      · exact h.nonempty frame hf
      · rw [List.mem_singleton.1 hf]
        exact List.append_ne_nil_of_right_ne_nil _ hs.nonempty
    · simp only [List.length_append, List.length_singleton, List.map_append, List.map_singleton,
        List.sum_append, List.sum_singleton, arrived, List.length_nil, hseg, hcount]
      omega
    · rw [hread h0, List.flatMap_append, List.flatMap_singleton, hmsgs]
      simp [arrived]
  · rw [if_neg hlast]
    have hlt : index + 1 < total := by
      have := hs.lt
      omega
    refine ⟨h.clean, fun frame hf => ?_, h.nonempty, waste, ?_, fun h0 => ?_⟩
    · obtain rfl := Option.some.inj hf
      refine ⟨Nat.succ_pos _, hlt, ?_⟩
      rw [List.length_append, hlen, hs.full hlt, Nat.succ_mul]
    · simp only [List.length_append, List.length_singleton, hcount, arrived, List.length_map,
        List.length_range]
      omega
    · dsimp only
      rw [hread h0, arrived_append hs hlen hlt, List.append_assoc]

/-! ### Whole frames -/

/-- The messages written so far are segments. -/
def AreSegments (w : List Bytes) : Prop :=
  ∀ m ∈ w, ∃ total index payload, m = message total index payload ∧ IsSegment total index payload

lemma violation_kept (msg : Bytes) (hv : p.violation ≠ none) :
    (p.onMessage msg).violation ≠ none := by
  have hsome : p.violation.isSome := Option.isSome_iff_ne_none.2 hv
  unfold Pump.onMessage
  rwa [if_pos hsome]

lemma pump_append (w : List Bytes) (msg : Bytes) : pump (w ++ [msg]) = (pump w).onMessage msg := by
  rw [pump, List.foldl_append]
  rfl

/-- A pump that found no violation has read what it delivered. -/
lemma parsed_pump (hw : AreSegments w) (hv : (pump w).violation = none) : Parsed w (pump w) := by
  induction w using List.reverseRecOn with
  | nil => exact ⟨rfl, fun frame hf => (Option.not_mem_none _ hf).elim,
      fun frame hf => absurd hf List.not_mem_nil, 0, rfl, fun _ => rfl⟩
  | append_singleton w msg ih =>
    obtain ⟨total, index, payload, rfl, hs⟩ := hw msg (by simp)
    rw [pump_append] at hv ⊢
    have hbefore : (pump w).violation = none := by
      by_contra hno
      exact violation_kept _ hno hv
    exact (ih (fun m hm => hw m (by simp [hm])) hbefore).onMessage hs hv

lemma take_messages {frame : Bytes} {k : ℕ} (hk : k < segmentCount frame) :
    (messages frame).take (k + 1) =
      (messages frame).take k ++ [message (totalSegments frame) k (piece frame k)] := by
  have hk' : k < divCeil frame.length segmentPayload := hk
  have hget : (messages frame)[k]? = some (message (totalSegments frame) k (piece frame k)) := by
    simp [messages, hk']
  rw [List.take_add_one, hget]
  rfl

/-- The pump has the first `k` segments of the frame and no violation. -/
structure Reading (p q : Pump) (frame : Bytes) (k : ℕ) : Prop where
  clean : q.violation = none
  delivered : q.delivered = p.delivered
  current : q.current (totalSegments frame) k =
    some ⟨totalSegments frame, k, frame.take (k * segmentPayload)⟩

/-- The next segment of the frame is accepted. -/
lemma Reading.onMessage {q : Pump} {frame : Bytes} {k : ℕ} (h : Reading p q frame k)
    (hsmall : frame.length ≤ maxReassembledBytes) (hk : k < segmentCount frame) :
    q.onMessage (message (totalSegments frame) k (piece frame k)) =
      q.accept (totalSegments frame) k (frame.take ((k + 1) * segmentPayload)) := by
  have hs := isSegment_piece hsmall hk
  have hlen : (frame.take (k * segmentPayload)).length = k * segmentPayload := by
    have hcount : segmentCount frame = (frame.length + segmentPayload - 1) / segmentPayload := rfl
    rw [segmentPayload_eq] at hcount ⊢
    rw [List.length_take]
    omega
  rw [onMessage_of_current hs h.clean h.current hlen, piece, ← List.take_add, Nat.succ_mul]

/-- The pump after the first segments of a frame. -/
lemma reading_take (hv : p.violation = none) {frame : Bytes}
    (hsmall : frame.length ≤ maxReassembledBytes) {k : ℕ} (hk : k < segmentCount frame) :
    Reading p (((messages frame).take k).foldl Pump.onMessage p) frame k := by
  have htotal := (totalSegments_eq hsmall).1
  induction k with
  | zero => exact ⟨hv, rfl, by simp [Pump.current]⟩
  | succ k ih =>
    have hr := ih (by omega)
    rw [take_messages (by omega), List.foldl_append, List.foldl_cons, List.foldl_nil,
      hr.onMessage hsmall (by omega), Pump.accept, if_neg (by omega)]
    exact ⟨hr.clean, hr.delivered, by rw [Pump.current, if_neg (Nat.succ_ne_zero k)]⟩

lemma segmentCount_pos {frame : Bytes} (hne : frame ≠ []) : 0 < segmentCount frame := by
  have hpos : 0 < frame.length := List.length_pos_iff.2 hne
  unfold segmentCount divCeil
  rw [segmentPayload_eq]
  omega

/-- All segments of a frame deliver it. -/
lemma foldl_messages (hv : p.violation = none) {frame : Bytes}
    (hsmall : frame.length ≤ maxReassembledBytes) (hne : frame ≠ []) :
    ((messages frame).foldl Pump.onMessage p).violation = none ∧
      ((messages frame).foldl Pump.onMessage p).delivered = p.delivered ++ [frame] := by
  have htotal := (totalSegments_eq hsmall).1
  have hpos := segmentCount_pos hne
  obtain ⟨k, hk⟩ : ∃ k, segmentCount frame = k + 1 := ⟨segmentCount frame - 1, by omega⟩
  have hr : Reading p _ frame k := reading_take hv hsmall (by omega)
  have hall : frame.take ((k + 1) * segmentPayload) = frame := by
    refine List.take_of_length_le ?_
    rw [← hk, segmentCount, divCeil, segmentPayload_eq]
    omega
  have hmsgs : messages frame = (messages frame).take (k + 1) :=
    (List.take_of_length_le (by simp [length_messages, hk])).symm
  rw [hmsgs, take_messages (by omega), List.foldl_append, List.foldl_cons, List.foldl_nil,
    hr.onMessage hsmall (by omega), Pump.accept, if_pos (by omega), hall]
  exact ⟨hr.clean, by rw [hr.delivered]⟩

/-- Whole frames, one after another, are delivered. -/
lemma pump_flatMap {l : List Bytes} (hsmall : ∀ frame ∈ l, frame.length ≤ maxReassembledBytes)
    (hne : ∀ frame ∈ l, frame ≠ []) :
    (pump (l.flatMap messages)).violation = none ∧ (pump (l.flatMap messages)).delivered = l := by
  induction l using List.reverseRecOn with
  | nil => exact ⟨rfl, rfl⟩
  | append_singleton l frame ih =>
    obtain ⟨hv, hd⟩ := ih (fun f hf => hsmall f (by simp [hf])) fun f hf => hne f (by simp [hf])
    obtain ⟨hv', hd'⟩ := foldl_messages hv (hsmall frame (by simp)) (hne frame (by simp))
    rw [List.flatMap_append, List.flatMap_singleton, pump, List.foldl_append]
    exact ⟨hv', hd'.trans (by rw [hd])⟩

/-! ### Runs -/

/-- The channel took the message. -/
def wasTaken (x : (e : Write) × e.Resp) : Bool :=
  match x with
  | ⟨.dcSend _, (r : Except String Unit)⟩ => r.isOk

/-- A send writes the messages of its frame in order. -/
def Sends (frame : Bytes) (done : List ((e : Write) × e.Resp)) (e : Write) : Prop :=
  frame.length ≤ maxReassembledBytes ∧
    ∃ msg, (messages frame)[done.length]? = some msg ∧ e = .dcSend msg

/-- A send that succeeded has written all of them. -/
def Sent (frame : Bytes) (result : Except TransportError Unit)
    (done : List ((e : Write) × e.Resp)) : Prop :=
  result = .ok () →
    frame.length ≤ maxReassembledBytes ∧ done.countP wasTaken = segmentCount frame

lemma writeAll_spec {frame : Bytes} (hsmall : frame.length ≤ maxReassembledBytes)
    {msgs : List Bytes} {done : List ((e : Write) × e.Resp)}
    (hmsgs : (messages frame).drop done.length = msgs) (hdone : done.countP wasTaken = done.length)
    (hle : done.length ≤ segmentCount frame) :
    (writeAll msgs).Sat (.past (Sends frame) fun _ _ => True) (Sent frame) done := by
  induction msgs generalizing done with
  | nil =>
    have hlen := congrArg List.length hmsgs
    rw [List.length_drop, length_messages, List.length_nil] at hlen
    exact fun _ => ⟨hsmall, by omega⟩
  | cons msg msgs ih =>
    have hget : (messages frame)[done.length]? = some msg := by
      rw [← List.head?_drop, hmsgs]
      rfl
    have hlt : done.length < segmentCount frame := by
      rw [← length_messages]
      exact (List.getElem?_eq_some_iff.1 hget).1
    refine ⟨⟨hsmall, msg, hget, rfl⟩, fun (r : Except String Unit) _ => ?_⟩
    cases r with
    | error e => exact fun hr => by cases hr
    | ok u =>
      refine @ih (done ++ [⟨.dcSend msg, (.ok u : Except String Unit)⟩]) ?_ ?_ ?_
      · rw [List.length_append, List.length_singleton, ← List.tail_drop, hmsgs]
        rfl
      · rw [List.countP_append, hdone, List.length_append]
        rfl
      · rw [List.length_append, List.length_singleton]
        exact hlt

lemma send_spec (frame : Bytes) :
    (send frame).Sat (.past (Sends frame) fun _ _ => True) (Sent frame) [] := by
  unfold send
  split
  · exact fun hr => by cases hr
  · rename_i hsmall
    exact writeAll_spec (Nat.not_lt.1 hsmall) rfl rfl (Nat.zero_le _)

variable {h : List (Did Write.Resp Bytes (List Bytes) (Option String))}
  {pool : Pool Write.Resp Bytes (Except TransportError Unit) (List Bytes)}

/-- What a write does to the channel. -/
lemma written_cases {d : Did Write.Resp Bytes (List Bytes) (Option String)} {msg : Bytes}
    (hh : channelSystem.Handled d) (he : d.effect = .dcSend msg) :
    (wasTaken (Did.record d) = false ∧ d.after = d.before) ∨
      (wasTaken (Did.record d) = true ∧ d.after = d.before ++ [msg]) := by
  obtain ⟨frame, e, inp, resp, before, after⟩ := d
  obtain rfl : e = .dcSend msg := he
  have hout : Write.handle (.dcSend msg) inp before = some (resp, after) := hh
  cases inp with
  | some error =>
    obtain ⟨rfl, rfl⟩ := Prod.mk.inj (Option.some.inj hout)
    exact .inl ⟨rfl, rfl⟩
  | none =>
    obtain ⟨rfl, rfl⟩ := Prod.mk.inj (Option.some.inj hout)
    exact .inr ⟨rfl, rfl⟩

/-- The channel holds segments, one for each message it took. -/
lemma segments_of_run (r : channelSystem.Run (fun _ _ => True) [] h pool) :
    AreSegments pool.state ∧ pool.state.length = h.countP fun d => wasTaken (Did.record d) := by
  refine r.past_invariant (fun frame => send_spec frame) (fun _ _ => trivial)
    (fun h w _ => AreSegments w ∧ w.length = h.countP fun d => wasTaken (Did.record d))
    ⟨fun m hm => absurd hm List.not_mem_nil, rfl⟩ (fun h w gs hI => hI) ?_
  rintro h gs i done d ⟨hseg, hcount⟩ - ⟨hsmall, msg, hget, he⟩ hh -
  rw [List.countP_append, List.countP_singleton, ← hcount]
  rcases written_cases hh he with ⟨htaken, hafter⟩ | ⟨htaken, hafter⟩
  · rw [hafter, htaken]
    exact ⟨hseg, rfl⟩
  · rw [hafter, htaken, if_pos rfl]
    refine ⟨fun m hm => ?_, List.length_append⟩
    rcases List.mem_append.1 hm with hm | hm
    · exact hseg m hm
    · obtain ⟨hlt, hmsg⟩ := List.getElem?_eq_some_iff.1 hget
      rw [length_messages] at hlt
      refine ⟨_, done.length, _, ?_, isSegment_piece hsmall hlt⟩
      rw [List.mem_singleton.1 hm, ← hmsg]
      simp [messages]

/-- The frames that were sent. -/
def frames (pool : Pool Write.Resp Bytes (Except TransportError Unit) (List Bytes)) : List Bytes :=
  pool.tasks.map Task.op

/-- Every send has returned, without an error. -/
def AllSent (pool : Pool Write.Resp Bytes (Except TransportError Unit) (List Bytes)) : Prop :=
  ∀ t ∈ pool.tasks, t.result = some (.ok ())

/-- The frames that were sent, each once and unaltered, and no violation. -/
def Exact (frames : List Bytes) (p : Pump) : Prop :=
  p.violation = none ∧ p.delivered.Perm frames

/-- No frame is empty, and the segments of each are written with nothing between them. -/
def Whole (frames : List Bytes) (written : List Bytes) : Prop :=
  (∀ frame ∈ frames, frame ≠ []) ∧ ∃ l : List Bytes, l.Perm frames ∧ written = l.flatMap messages

lemma sent_of_run (r : channelSystem.Run (fun _ _ => True) [] h pool) (hall : AllSent pool) :
    (∀ frame ∈ frames pool, frame.length ≤ maxReassembledBytes) ∧
      pool.state.length = ((frames pool).map segmentCount).sum := by
  have hsent : ∀ t ∈ pool.tasks, t.op.length ≤ maxReassembledBytes ∧
      t.done.countP wasTaken = segmentCount t.op := fun t ht => by
    obtain ⟨-, -, hsat⟩ := (r.recalls (fun frame => send_spec frame) fun _ _ => trivial).2 t ht
    exact System.sat_of_result hsat (hall t ht) rfl
  refine ⟨fun frame hf => ?_, ?_⟩
  · obtain ⟨t, ht, rfl⟩ := List.mem_map.1 hf
    exact (hsent t ht).1
  · rw [(segments_of_run r).2, r.counts fun _ => wasTaken, frames, List.map_map]
    exact congrArg List.sum (List.map_congr_left fun t ht =>
      (hsent t ht).2.trans Function.comp_apply.symm)

/-- **The frames that arrive are the frames that were sent, exactly when none is empty and no other
segment is written between those of one frame.** -/
theorem shared_channel_exact (r : channelSystem.Run (fun _ _ => True) [] h pool)
    (hall : AllSent pool) :
    Exact (frames pool) (pump pool.state) ↔ Whole (frames pool) pool.state := by
  obtain ⟨hsmall, hlen⟩ := sent_of_run r hall
  constructor
  · rintro ⟨hv, hperm⟩
    have hparsed := parsed_pump (segments_of_run r).1 hv
    obtain ⟨waste, hcount, hread⟩ := hparsed.read
    have hsum := (hperm.map segmentCount).sum_eq
    have hnil : arrived (pump pool.state).reassembler = [] :=
      List.length_eq_zero_iff.1 (by omega)
    have hw := hread (by omega)
    rw [hnil, List.append_nil] at hw
    exact ⟨fun frame hf => hparsed.nonempty frame (hperm.mem_iff.2 hf), _, hperm, hw⟩
  · rintro ⟨hne, l, hperm, hw⟩
    obtain ⟨hv, hd⟩ := pump_flatMap (fun frame hf => hsmall frame (hperm.mem_iff.1 hf))
      fun frame hf => hne frame (hperm.mem_iff.1 hf)
    rw [hw]
    exact ⟨hv, hd.symm ▸ hperm⟩

/-! ### A chunk and a request -/

namespace ChunkAndRequest

/-- A frame of two segments. -/
def chunk : Bytes := List.replicate (segmentPayload + 1) 0

/-- A frame of one segment. -/
def request : Bytes := [1]

lemma length_chunk : chunk.length = 16381 := List.length_replicate

lemma divCeil_chunk : divCeil chunk.length segmentPayload = 2 := by
  rw [length_chunk]
  rfl

lemma totalSegments_chunk : totalSegments chunk = 2 := by
  rw [totalSegments, divCeil_chunk]
  rfl

lemma messages_chunk :
    messages chunk = [message 2 0 (piece chunk 0), message 2 1 (piece chunk 1)] := by
  rw [messages, totalSegments_chunk, divCeil_chunk]
  rfl

lemma send_chunk :
    send chunk = writeAll [message 2 0 (piece chunk 0), message 2 1 (piece chunk 1)] := by
  rw [send, length_chunk, if_neg (by decide), messages_chunk]

/-- Both are to be sent. -/
lemma run_spawned : channelSystem.Run (fun _ _ => True) [] [] ⟨[], [
    ⟨chunk, writeAll [message 2 0 (piece chunk 0), message 2 1 (piece chunk 1)], []⟩,
    ⟨request, writeAll [message 1 0 request], []⟩]⟩ := by
  have hchunk : channelSystem.spawned chunk =
      ⟨chunk, writeAll [message 2 0 (piece chunk 0), message 2 1 (piece chunk 1)], []⟩ := by
    simp only [System.spawned, channelSystem, send_chunk]
  rw [← hchunk]
  exact .spawn request (.spawn chunk .start)

/-- The request is written between the two segments of the chunk. -/
lemma run_interleaved : ∃ h pool, channelSystem.Run (fun _ _ => True) [] h pool ∧ AllSent pool ∧
    frames pool = [chunk, request] ∧ pool.state =
      [message 2 0 (piece chunk 0), message 1 0 request, message 2 1 (piece chunk 1)] := by
  have r := run_spawned.advance 0 none rfl trivial
  have r := r.advance 1 none rfl trivial
  have r := r.advance 0 none rfl trivial
  refine ⟨_, _, r, fun t ht => ?_, rfl, rfl⟩
  rcases List.mem_pair.1 ht with rfl | rfl <;> rfl

lemma onMessage_chunk : Pump.start.onMessage (message 2 0 (piece chunk 0)) =
    ⟨some ⟨2, 1, piece chunk 0⟩, [], none⟩ := by
  have hs : IsSegment (totalSegments chunk) 0 (piece chunk 0) := by
    refine isSegment_piece ?_ ?_
    · rw [length_chunk]
      decide
    · rw [segmentCount, divCeil_chunk]
      decide
  rw [totalSegments_chunk] at hs
  exact onMessage_of_current hs rfl rfl (Nat.zero_mul _).symm

/-- The chunk is not delivered, and its second segment is a violation. -/
theorem shared_channel_broken : ∃ h pool, channelSystem.Run (fun _ _ => True) [] h pool ∧
    AllSent pool ∧ (∀ frame ∈ frames pool, frame.length ≤ maxReassembledBytes) ∧
    (pump pool.state).violation = some .noOpenFrame ∧ chunk ∈ frames pool ∧
    chunk ∉ (pump pool.state).delivered ∧ ¬Exact (frames pool) (pump pool.state) := by
  obtain ⟨h, pool, r, hall, hframes, hstate⟩ := run_interleaved
  have hpump : pump pool.state = ⟨none, [request], some .noOpenFrame⟩ := by
    rw [hstate, pump, List.foldl_cons, onMessage_chunk]
    generalize piece chunk 0 = first
    generalize piece chunk 1 = second
    rfl
  refine ⟨h, pool, r, hall, (sent_of_run r hall).1, by rw [hpump], by simp [hframes], ?_, ?_⟩
  · rw [hpump]
    intro hmem
    have hlen := congrArg List.length (List.mem_singleton.1 hmem)
    rw [length_chunk] at hlen
    cases hlen
  · rintro ⟨hv, -⟩
    rw [hpump] at hv
    cases hv

/-- The request is written after both. -/
theorem shared_channel_exact_two : ∃ h pool, channelSystem.Run (fun _ _ => True) [] h pool ∧
    frames pool = [chunk, request] ∧ Exact (frames pool) (pump pool.state) := by
  have r := run_spawned.advance 0 none rfl trivial
  have r := r.advance 0 none rfl trivial
  have r := r.advance 1 none rfl trivial
  refine ⟨_, _, r, rfl, (shared_channel_exact r fun t ht => ?_).2
    ⟨fun frame hf => ?_, [chunk, request], .refl _, ?_⟩⟩
  · rcases List.mem_pair.1 ht with rfl | rfl <;> rfl
  · rcases List.mem_pair.1 hf with rfl | rfl <;> exact List.cons_ne_nil _ _
  · rw [List.flatMap_cons, messages_chunk]
    rfl

end ChunkAndRequest

end Locast.Transfer
