import Locast.Rooms.Feed

/-!
# The room feed converges

While its room is registered, the client of a feed is always at some sequence `c`: the items handed
out carry it there without a gap or a repetition (`Covers`) and replay to the room's drawing at `c`.

The position of the feed in the channel is `base.seq + k`: of the drawing events published since the
subscription, the first `k` are behind it.  Events between that position and `c` are those a
snapshot covered (`behind`), and unless a lag or a snapshot is pending the client has everything
behind the position (`caught`).
-/

namespace Locast.Rooms

open Locast.Lib FeedWorld

variable {C : Type} (apply : C → BroadcastItem → C)

/-- A drawing event, by its sequence number. -/
def BroadcastItem.isDrawing (item : BroadcastItem) : Bool := item.seq ≠ 0

/-- What the published drawing events and the room's drawing have to do with each other. -/
structure Recorded (base : Drawing C) (w : FeedWorld C) : Prop where
  numbered : ∀ i item, w.published[i]? = some item → item.seq = base.seq + i + 1
  seq_eq : w.drawing.seq = base.seq + w.published.length
  canvas_eq : w.drawing.canvas = w.published.foldl apply base.canvas

/-- The drawing events not yet examined: the held item and what is left in the channel. -/
def RoomFeed.pendingDrawing (f : RoomFeed) (log : List BroadcastItem) : List BroadcastItem :=
  (f.held.toList ++ log.drop f.rx).filter (·.isDrawing)

/-- Where the client and the feed are: the client at `c`, the feed behind `k` drawing events. -/
structure Positioned (base : Drawing C) (published : List BroadcastItem) (log : List BroadcastItem)
    (f : RoomFeed) (c k : ℕ) : Prop where
  rx_le : f.rx ≤ log.length
  k_le : k ≤ published.length
  pending_eq : f.pendingDrawing log = published.drop k
  known_eq : f.known = c ∨ (f.known = 0 ∧ c = base.seq)
  floor_le : f.drawFloor ≤ c
  le_seq : c ≤ base.seq + published.length
  behind : c ≤ f.drawFloor ∨ c ≤ base.seq + k
  caught : f.lagged = false → f.syncPending = false → base.seq + k ≤ c

/-- What each await knows about the feed's fields. -/
def Await.Fits (f : RoomFeed) : Await → Prop
  | .top => True
  | .sleep _ | .snapshotLookup | .snapshotRead => f.syncPending = true
  | .recv => f.syncPending = false ∧ f.held = none
  | .seqLookup known | .seqRead known =>
    f.syncPending = false ∧ f.lagged = true ∧ known = f.known ∧
      ∃ item, f.held = some item ∧ item.seq = 0

/-- **The feed invariant**, while the room is registered. -/
structure Converging (base : Drawing C) (w : FeedWorld C) : Prop where
  channelOpen : w.channelOpen = true
  recorded : Recorded apply base w
  positioned : ∃ log c k, w.ring.Holds log ∧ Positioned base w.published log w.feed c k ∧
    Covers base.seq w.handed c ∧
    w.handed.foldl (FeedItem.replay apply) base.canvas = stateAt apply base w.published c
  fits : w.await.Fits w.feed

variable {apply} {base : Drawing C} {w : FeedWorld C} {published log : List BroadcastItem}
  {f : RoomFeed} {c k : ℕ}

/-! ### The room's drawing at a sequence number -/

lemma stateAt_succ (hc : base.seq ≤ c) {item : BroadcastItem}
    (hitem : published[c - base.seq]? = some item) :
    stateAt apply base published (c + 1) = apply (stateAt apply base published c) item := by
  unfold stateAt
  rw [show c + 1 - base.seq = (c - base.seq) + 1 by omega, List.take_add_one, hitem,
    Option.toList_some, List.foldl_append]
  rfl

lemma stateAt_append (hc : c ≤ base.seq + published.length) (more : List BroadcastItem) :
    stateAt apply base (published ++ more) c = stateAt apply base published c := by
  unfold stateAt
  rw [List.take_append_of_le_length (by omega)]

lemma Recorded.canvas_stateAt (h : Recorded apply base w) :
    w.drawing.canvas = stateAt apply base w.published w.drawing.seq := by
  rw [h.canvas_eq, h.seq_eq, stateAt, Nat.add_sub_cancel_left, List.take_length]

/-! ### Moving the feed forward -/

/-- A drawing event at the head of what is pending is the next one. -/
lemma Positioned.head (h : Positioned base published log f c k)
    (hn : ∀ i item, published[i]? = some item → item.seq = base.seq + i + 1)
    {item : BroadcastItem} {rest : List BroadcastItem}
    (hp : f.pendingDrawing log = item :: rest) :
    item.seq = base.seq + k + 1 ∧ published[k]? = some item ∧ rest = published.drop (k + 1) ∧
      k + 1 ≤ published.length := by
  have heq : published.drop k = item :: rest := by rw [← h.pending_eq, hp]
  have hlt : k < published.length := by
    by_contra hge
    rw [List.drop_eq_nil_of_le (by omega)] at heq
    cases heq
  rw [List.drop_eq_getElem_cons hlt] at heq
  obtain ⟨hitem, hrest⟩ := List.cons.inj heq
  have hget : published[k]? = some item := by rw [List.getElem?_eq_getElem hlt, hitem]
  exact ⟨hn k item hget, hget, hrest.symm, hlt⟩

/-- Skipping items of the channel moves the feed behind more drawing events. -/
lemma Positioned.skip (h : Positioned base published log f c k) (hheld : f.held = none)
    {rx : ℕ} (hle : f.rx ≤ rx) (hrx : rx ≤ log.length) :
    ∃ k', Positioned base published log { f with rx, lagged := true } c k' := by
  have hpend : (log.drop f.rx).filter (·.isDrawing) = published.drop k := by
    rw [← h.pending_eq, RoomFeed.pendingDrawing, hheld]
    rfl
  have hsplit : log.drop rx = (log.drop f.rx).drop (rx - f.rx) := by
    rw [List.drop_drop]
    congr 1
    omega
  have hsuffix : (log.drop rx).filter (·.isDrawing) <:+ published.drop k := by
    rw [hsplit, ← hpend]
    exact (List.drop_suffix _ _).filter _
  obtain ⟨pre, hpre⟩ := hsuffix
  have hdrop : (log.drop rx).filter (·.isDrawing) = published.drop (k + pre.length) := by
    rw [← List.drop_drop, ← hpre, List.drop_left]
  have hlen : pre.length ≤ published.length - k := by
    have := congrArg List.length hpre
    simp only [List.length_append, List.length_drop] at this
    omega
  refine ⟨k + pre.length, ?_⟩
  exact {
    rx_le := hrx
    k_le := by have := h.k_le; omega
    pending_eq := by simp only [RoomFeed.pendingDrawing, hheld]; exact hdrop
    known_eq := h.known_eq
    floor_le := h.floor_le
    le_seq := h.le_seq
    behind := h.behind.imp_right fun hb => by omega
    caught := fun hl => by cases hl }

/-! ### One piece of `next` -/

/-- What a piece of `next` that reads no snapshot does: the feed stays positioned, and an item it
hands out carries the client on. -/
def Keeps (base : Drawing C) (published log : List BroadcastItem) (c : ℕ) (p : Progress C) : Prop :=
  p.await.Fits p.feed ∧ ∃ c' k, Positioned base published log p.feed c' k ∧
    ((p.handed = none ∧ c' = c) ∨
      (∃ item, p.handed = some (.event item) ∧ item.seq = 0 ∧ c' = c) ∨
      (∃ item, p.handed = some (.event item) ∧ item.seq = c + 1 ∧ c' = c + 1 ∧
        published[c - base.seq]? = some item))

section Pieces

variable {item : BroadcastItem}
  (hn : ∀ i item, published[i]? = some item → item.seq = base.seq + i + 1)

include hn

lemma deliver_keeps (h : Positioned base published log { f with held := some item } c k)
    (hheld : f.held = none) (hl : f.lagged = false) (hs : f.syncPending = false) :
    Keeps base published log c (f.deliver (C := C) item) := by
  have hcaught : base.seq + k ≤ c := h.caught hl hs
  unfold RoomFeed.deliver
  by_cases hseq : item.seq = 0
  · rw [if_neg (not_not.2 hseq)]
    refine ⟨trivial, c, k, ?_, Or.inr (Or.inl ⟨item, rfl, hseq, rfl⟩)⟩
    have hd : item.isDrawing = false := by simp [BroadcastItem.isDrawing, hseq]
    have hpend := h.pending_eq
    simp only [RoomFeed.pendingDrawing, Option.toList_some, List.singleton_append, List.filter_cons,
      hd] at hpend
    exact { h with pending_eq := by simpa [RoomFeed.pendingDrawing, hheld] using hpend }
  · rw [if_pos hseq]
    have hpend : RoomFeed.pendingDrawing { f with held := some item } log =
        item :: f.pendingDrawing log := by
      simp [RoomFeed.pendingDrawing, hheld, BroadcastItem.isDrawing, hseq]
    obtain ⟨hnum, hget, hrest, hk⟩ := h.head hn hpend
    have hfloor : f.drawFloor ≤ c := h.floor_le
    have hbehind : c ≤ f.drawFloor ∨ c ≤ base.seq + k := h.behind
    by_cases hcov : item.seq ≤ f.drawFloor
    · -- a snapshot covers the event: it is skipped
      rw [if_pos hcov]
      refine ⟨trivial, c, k + 1, ?_, Or.inl ⟨rfl, rfl⟩⟩
      exact { h with
        k_le := hk
        pending_eq := hrest
        behind := hbehind.imp_right fun hb => by omega
        caught := fun _ _ => by omega }
    · -- the client is right behind the event
      rw [if_neg hcov]
      have hck : c = base.seq + k := by omega
      refine ⟨trivial, c + 1, k + 1, ?_, Or.inr (Or.inr ⟨item, rfl, by omega, rfl, ?_⟩)⟩
      · have hknown : f.known = c ∨ (f.known = 0 ∧ c = base.seq) := h.known_eq
        unfold RoomFeed.known at hknown
        exact {
          rx_le := h.rx_le
          k_le := hk
          pending_eq := hrest
          known_eq := Or.inl (by simp only [RoomFeed.known]; omega)
          floor_le := by simp only; omega
          le_seq := by omega
          behind := Or.inr (by omega)
          caught := fun _ _ => by omega }
      · rw [hck, Nat.add_sub_cancel_left, hget]

lemma settleLag_keeps (h : Positioned base published log { f with held := some item } c k)
    (hheld : f.held = none) (hs : f.syncPending = false) {lost : Bool}
    (hcaught : lost = false → base.seq + k ≤ c) :
    Keeps base published log c (f.settleLag (C := C) item lost) := by
  unfold RoomFeed.settleLag
  cases lost with
  | true =>
    exact ⟨trivial, c, k, { h with caught := fun _ hs' => by cases hs' }, Or.inl ⟨rfl, rfl⟩⟩
  | false =>
    have h' : Positioned base published log { f with lagged := false, held := some item } c k :=
      { h with caught := fun _ _ => hcaught rfl }
    exact deliver_keeps hn (f := { f with lagged := false }) h' hheld rfl hs

omit hn in
lemma Positioned.known_le (h : Positioned base published log f c k) : f.known ≤ c := by
  rcases h.known_eq with hk | ⟨hk, -⟩ <;> omega

lemma examine_keeps (h : Positioned base published log { f with held := some item } c k)
    (hheld : f.held = none) (hs : f.syncPending = false) :
    Keeps base published log c (f.examine (C := C) item) := by
  unfold RoomFeed.examine
  by_cases hl : f.lagged = true
  · rw [if_pos hl]
    by_cases hseq : item.seq = 0
    · rw [if_pos hseq]
      exact ⟨⟨hs, hl, rfl, item, rfl, hseq⟩, c, k, h, Or.inl ⟨rfl, rfl⟩⟩
    · rw [if_neg hseq]
      refine settleLag_keeps hn h hheld hs fun hlost => ?_
      -- the numbers are contiguous, so whatever was lost is below `item.seq`
      have hpend : RoomFeed.pendingDrawing { f with held := some item } log =
          item :: f.pendingDrawing log := by
        simp [RoomFeed.pendingDrawing, hheld, BroadcastItem.isDrawing, hseq]
      have hnum := (h.head hn hpend).1
      have hle : ¬ f.known + 1 < item.seq := by simpa using hlost
      have hknown : f.known ≤ c := h.known_le
      omega
  · rw [if_neg hl]
    exact deliver_keeps hn h hheld (by simpa using hl) hs

lemma takeItem_keeps (h : Positioned base published log f c k) (hs : f.syncPending = false) :
    Keeps base published log c (f.takeItem (C := C)) := by
  unfold RoomFeed.takeItem
  cases hheld : f.held with
  | some item =>
    have hf : { f with held := some item } = f := by rw [← hheld]
    exact examine_keeps hn (f := { f with held := none }) (by simpa [hf] using h) rfl hs
  | none => exact ⟨⟨hs, hheld⟩, c, k, h, Or.inl ⟨rfl, rfl⟩⟩

lemma finishSeq_keeps (h : Positioned base published log f c k) {known : ℕ}
    (hfits : (Await.seqRead known).Fits f) :
    Keeps base published log c
      (f.finishSeq (C := C) known (some (base.seq + published.length))) := by
  obtain ⟨hs, hl, rfl, item, hheld, hseq⟩ := hfits
  unfold RoomFeed.finishSeq
  simp only [hheld]
  have hf : { f with held := some item } = f := by rw [← hheld]
  refine settleLag_keeps hn (f := { f with held := none }) (k := k) (by simpa [hf] using h) rfl hs
    fun hlost => ?_
  -- the room has published nothing past what the client has
  have hle : base.seq + published.length ≤ f.known := by simpa using hlost
  have hknown := h.known_le
  have hk := h.k_le
  omega

end Pieces

/-! ### The invariant along a run -/

lemma Converging.of_keeps (h : Converging apply base w) {log : List BroadcastItem}
    (hring : w.ring.Holds log) (hcov : Covers base.seq w.handed c)
    (hreplay : w.handed.foldl (FeedItem.replay apply) base.canvas =
      stateAt apply base w.published c)
    {p : Progress C} (hp : Keeps base w.published log c p) :
    Converging apply base
      { w with feed := p.feed, await := p.await, handed := w.handed ++ p.handed.toList } := by
  obtain ⟨hfits, c', k', hpos, hhanded⟩ := hp
  refine ⟨h.channelOpen, ⟨h.recorded.numbered, h.recorded.seq_eq, h.recorded.canvas_eq⟩,
    ⟨log, c', k', hring, hpos, ?_, ?_⟩, hfits⟩
  · rcases hhanded with ⟨hh, rfl⟩ | ⟨item, hh, hseq, rfl⟩ | ⟨item, hh, hseq, rfl, -⟩ <;> rw [hh]
    · simpa using hcov
    · exact .other item hseq hcov
    · exact .event item hseq hcov
  · rcases hhanded with ⟨hh, rfl⟩ | ⟨item, hh, hseq, rfl⟩ | ⟨item, hh, hseq, rfl, hget⟩ <;> rw [hh]
    · simpa using hreplay
    · simp [List.foldl_append, hreplay, FeedItem.replay, hseq]
    · have hne : item.seq ≠ 0 := by omega
      simp [List.foldl_append, hreplay, FeedItem.replay, hne, stateAt_succ hcov.le hget]

/-- A snapshot brings the client to the room's own sequence. -/
lemma Converging.of_sync (h : Converging apply base w) (now : ℕ) :
    Converging apply base { w with
      feed := (w.feed.finishSync now (some w.drawing)).feed
      await := (w.feed.finishSync now (some w.drawing)).await
      handed := w.handed ++ (w.feed.finishSync now (some w.drawing)).handed.toList } := by
  obtain ⟨log, c, k, hring, hpos, hcov, hreplay⟩ := h.positioned
  have hseq := h.recorded.seq_eq
  have hle : c ≤ w.drawing.seq := by rw [hseq]; exact hpos.le_seq
  have hknown := hpos.known_le
  have hfloor := hpos.floor_le
  have hk := hpos.k_le
  refine ⟨h.channelOpen, ⟨h.recorded.numbered, h.recorded.seq_eq, h.recorded.canvas_eq⟩,
    ⟨log, w.drawing.seq, k, hring, ?_, .sync w.drawing hle hcov, ?_⟩, trivial⟩
  · unfold RoomFeed.known at hknown
    exact {
      rx_le := hpos.rx_le
      k_le := hk
      pending_eq := hpos.pending_eq
      known_eq := Or.inl (by simp only [RoomFeed.known, RoomFeed.finishSync]; omega)
      floor_le := by simp only [RoomFeed.finishSync]; omega
      le_seq := hseq.le
      behind := Or.inl (by simp only [RoomFeed.finishSync]; omega)
      caught := fun _ _ => by omega }
  · simp [RoomFeed.finishSync, List.foldl_append, FeedItem.replay, h.recorded.canvas_stateAt]

/-- **One step of `next` keeps the invariant.** -/
theorem Converging.next (h : Converging apply base w) (hreg : w.registered = true) {p : Progress C}
    (hp : w.nextStep = some p) :
    Converging apply base
      { w with feed := p.feed, await := p.await, handed := w.handed ++ p.handed.toList } := by
  obtain ⟨log, c, k, hring, hpos, hcov, hreplay⟩ := h.positioned
  have hn := h.recorded.numbered
  have hfits := h.fits
  have keep : ∀ {p : Progress C}, Keeps base w.published log c p → Converging apply base
      { w with feed := p.feed, await := p.await, handed := w.handed ++ p.handed.toList } :=
    fun hk => h.of_keeps hring hcov hreplay hk
  have move : ∀ await : Await, await.Fits w.feed →
      Keeps base w.published log c (⟨w.feed, await, none⟩ : Progress C) :=
    fun await ha => ⟨ha, c, k, hpos, Or.inl ⟨rfl, rfl⟩⟩
  unfold nextStep at hp
  cases haw : w.await with
  | top =>
    simp only [haw] at hp
    cases hs : w.feed.syncPending with
    | true =>
      simp only [hs, if_true] at hp
      split at hp <;> obtain rfl := Option.some.inj hp <;> exact keep (move _ hs)
    | false =>
      simp only [hs, Bool.false_eq_true, if_false] at hp
      obtain rfl := Option.some.inj hp
      exact keep (takeItem_keeps hn hpos hs)
  | sleep untilMs =>
    simp only [haw] at hp hfits
    split at hp
    · obtain rfl := Option.some.inj hp
      exact keep (move .snapshotLookup hfits)
    · cases hp
  | snapshotLookup =>
    simp only [haw, hreg, if_true] at hp hfits
    obtain rfl := Option.some.inj hp
    exact keep (move .snapshotRead hfits)
  | snapshotRead =>
    simp only [haw] at hp hfits
    obtain rfl := Option.some.inj hp
    exact h.of_sync w.now
  | recv =>
    simp only [haw] at hp hfits
    obtain ⟨hs, hheld⟩ := hfits
    rcases RingBuffer.recv_spec hring hpos.rx_le
      with ⟨missed, rx, hr, hle, hrx⟩ | ⟨item, hr, hdrop, hrx⟩ |
      ⟨hr, -⟩ <;> simp only [hr] at hp
    · obtain rfl := Option.some.inj hp
      obtain ⟨k', hpos'⟩ := hpos.skip hheld hle hrx
      exact keep ⟨trivial, c, k', hpos', Or.inl ⟨rfl, rfl⟩⟩
    · obtain rfl := Option.some.inj hp
      refine keep (examine_keeps hn (k := k) ?_ hheld hs)
      have hpend := hpos.pending_eq
      simp only [RoomFeed.pendingDrawing, hheld, hdrop] at hpend
      exact { hpos with
        rx_le := hrx
        pending_eq := by simpa [RoomFeed.pendingDrawing] using hpend }
    · simp [h.channelOpen] at hp
  | seqLookup known =>
    simp only [haw, hreg, if_true] at hp hfits
    obtain rfl := Option.some.inj hp
    exact keep (move (.seqRead known) hfits)
  | seqRead known =>
    simp only [haw] at hp hfits
    obtain rfl := Option.some.inj hp
    rw [h.recorded.seq_eq]
    exact keep (finishSeq_keeps hn hpos hfits)

/-- A drawing event applied and published. -/
theorem Converging.publishDrawing (h : Converging apply base w) (item : BroadcastItem) :
    ∀ w', w.step apply (.publishDrawing item) = some w' → Converging apply base w' := by
  rintro w' hw
  obtain rfl := Option.some.inj hw
  obtain ⟨log, c, k, hring, hpos, hcov, hreplay⟩ := h.positioned
  set numbered : BroadcastItem := { item with seq := w.drawing.seq + 1 } with hnumbered
  have hsend : w.send numbered = { w with ring := w.ring.send numbered } := if_pos h.channelOpen
  have hseq := h.recorded.seq_eq
  simp only [hsend]
  refine ⟨h.channelOpen, ⟨?_, ?_, ?_⟩, ⟨log ++ [numbered], c, k, hring.send numbered, ?_, hcov, ?_⟩,
    h.fits⟩
  · intro i it hi
    rcases lt_or_ge i w.published.length with hlt | hge
    · rw [List.getElem?_append_left hlt] at hi
      exact h.recorded.numbered i it hi
    · rw [List.getElem?_append_right hge] at hi
      obtain ⟨hi0, rfl⟩ : i - w.published.length = 0 ∧ numbered = it := by
        simpa [List.getElem?_singleton] using hi
      change w.drawing.seq + 1 = _
      omega
  · simp only [List.length_append, List.length_singleton]
    omega
  · simp [List.foldl_append, h.recorded.canvas_eq]
  · have hpend := hpos.pending_eq
    have hrx := hpos.rx_le
    have hk := hpos.k_le
    refine { hpos with rx_le := ?_, k_le := ?_, pending_eq := ?_, le_seq := ?_ }
    · rw [List.length_append]
      exact Nat.le_add_right_of_le hrx
    · rw [List.length_append]
      exact Nat.le_add_right_of_le hk
    · have hd : numbered.isDrawing = true := by simp [BroadcastItem.isDrawing, hnumbered]
      unfold RoomFeed.pendingDrawing at hpend ⊢
      rw [List.drop_append_of_le_length hrx, ← List.append_assoc, List.filter_append, hpend,
        List.drop_append_of_le_length hk]
      simp [hd]
    · have := hpos.le_seq
      rw [List.length_append]
      omega
  · rw [hreplay, stateAt_append hpos.le_seq]

/-- Any other item published. -/
theorem Converging.publishOther (h : Converging apply base w) (item : BroadcastItem) :
    ∀ w', w.step apply (.publishOther item) = some w' → Converging apply base w' := by
  rintro w' hw
  obtain rfl := Option.some.inj hw
  obtain ⟨log, c, k, hring, hpos, hcov, hreplay⟩ := h.positioned
  have hsend : w.send { item with seq := 0 } =
      { w with ring := w.ring.send { item with seq := 0 } } :=
    if_pos h.channelOpen
  rw [hsend]
  refine ⟨h.channelOpen, ⟨h.recorded.numbered, h.recorded.seq_eq, h.recorded.canvas_eq⟩,
    ⟨log ++ [{ item with seq := 0 }], c, k, hring.send _, ?_, hcov, hreplay⟩, h.fits⟩
  have hpend := hpos.pending_eq
  have hrx := hpos.rx_le
  refine { hpos with rx_le := ?_, pending_eq := ?_ }
  · rw [List.length_append]
    exact Nat.le_add_right_of_le hrx
  · unfold RoomFeed.pendingDrawing at hpend ⊢
    rw [List.drop_append_of_le_length hrx, ← List.append_assoc, List.filter_append, hpend]
    simp [BroadcastItem.isDrawing]

/-- **One step keeps the invariant.** -/
theorem converging_step (h : w.registered = true → Converging apply base w) {move : Move}
    {w' : FeedWorld C} (hw : w.step apply move = some w') :
    w'.registered = true → Converging apply base w' := by
  intro hreg
  cases move with
  | publishDrawing item =>
    have hreg' : w.registered = true := by
      obtain rfl := Option.some.inj hw
      unfold FeedWorld.send at hreg
      split at hreg <;> exact hreg
    exact (h hreg').publishDrawing item w' hw
  | publishOther item =>
    have hreg' : w.registered = true := by
      obtain rfl := Option.some.inj hw
      unfold FeedWorld.send at hreg
      split at hreg <;> exact hreg
    exact (h hreg').publishOther item w' hw
  | tick =>
    obtain rfl := Option.some.inj hw
    have h' := h hreg
    exact ⟨h'.channelOpen, ⟨h'.recorded.numbered, h'.recorded.seq_eq, h'.recorded.canvas_eq⟩,
      h'.positioned, h'.fits⟩
  | removeRoom =>
    obtain rfl := Option.some.inj hw
    cases hreg
  | removeChannel =>
    simp only [step] at hw
    split at hw
    · cases hw
    · rename_i hr
      obtain rfl := Option.some.inj hw
      exact absurd hreg hr
  | next =>
    obtain ⟨p, hp, rfl⟩ := Option.map_eq_some_iff.1 hw
    exact (h hreg).next hreg hp
  | cancel =>
    obtain rfl := Option.some.inj hw
    have h' := h hreg
    exact ⟨h'.channelOpen, ⟨h'.recorded.numbered, h'.recorded.seq_eq, h'.recorded.canvas_eq⟩,
      h'.positioned, trivial⟩

/-- A feed that has just subscribed. -/
lemma FeedWorld.Subscribed.converging (apply : C → BroadcastItem → C) (h : w.Subscribed) :
    Converging apply w.drawing w := by
  obtain ⟨log, hring⟩ := h.ring
  obtain ⟨interval, hfeed⟩ := h.feed
  have hsent := hring.sent_eq
  refine ⟨h.channelOpen, ⟨by simp [h.published], by simp [h.published], by simp [h.published]⟩,
    ⟨log, w.drawing.seq, 0, hring, ?_, h.handed ▸ .start, by simp [h.handed, h.published, stateAt]⟩,
    h.await ▸ trivial⟩
  rw [hfeed, h.published]
  exact {
    rx_le := hsent.le
    k_le := le_rfl
    pending_eq := by simp [RoomFeed.pendingDrawing, RoomFeed.new, hsent]
    known_eq := Or.inr ⟨rfl, rfl⟩
    floor_le := Nat.zero_le _
    le_seq := le_rfl
    behind := Or.inr le_rfl
    caught := fun _ _ => le_rfl }

theorem converging_run {w₀ : FeedWorld C} (h : w₀.registered = true → Converging apply base w₀)
    (moves : List Move) (hrun : w₀.run apply moves = some w) :
    w.registered = true → Converging apply base w := by
  induction moves generalizing w₀ with
  | nil =>
    obtain rfl := Option.some.inj hrun
    exact h
  | cons move moves ih =>
    rw [run, List.foldlM_cons] at hrun
    obtain ⟨w₁, hw₁, hrest⟩ := Option.bind_eq_some_iff.1 hrun
    exact ih (converging_step h hw₁) hrest

/-- **Drawing feed convergence.**  After any run of a freshly subscribed feed and the publishers,
with any ring overflow and any cancellation, while the room is registered: the items handed out
carry the client from the subscription's sequence to some `c` without a gap or a repetition, the
delivered drawing events are strictly increasing, replaying the items gives the room's drawing at
`c`, and a feed with no pending work that has drained its channel has brought the client to the
room's own drawing. -/
theorem feed_converges (apply : C → BroadcastItem → C) {w₀ : FeedWorld C} (h₀ : w₀.Subscribed)
    (moves : List Move) (hrun : w₀.run apply moves = some w) (hreg : w.registered = true) :
    ∃ c, Covers w₀.drawing.seq w.handed c ∧
      (eventSeqs w.handed).Pairwise (· < ·) ∧
      w.handed.foldl (FeedItem.replay apply) w₀.drawing.canvas =
        stateAt apply w₀.drawing w.published c ∧
      w.drawing.canvas = stateAt apply w₀.drawing w.published w.drawing.seq ∧
      c ≤ w.drawing.seq ∧
      (w.feed.lagged = false → w.feed.syncPending = false → w.feed.held = none →
        w.feed.rx = w.ring.sent → c = w.drawing.seq) := by
  have h := converging_run (fun _ => h₀.converging apply) moves hrun hreg
  obtain ⟨log, c, k, hring, hpos, hcov, hreplay⟩ := h.positioned
  have hseq := h.recorded.seq_eq
  have hle := hpos.le_seq
  refine ⟨c, hcov, hcov.eventSeqs_sorted, hreplay, h.recorded.canvas_stateAt, hseq ▸ hle, ?_⟩
  intro hl hs hheld hrx
  -- nothing is left in the channel, so the feed is behind every drawing event
  have hpend := hpos.pending_eq
  rw [RoomFeed.pendingDrawing, hheld, hrx, hring.sent_eq, List.drop_length] at hpend
  have hlen := congrArg List.length hpend
  simp only [Option.toList_none, List.append_nil, List.filter_nil, List.length_nil,
    List.length_drop] at hlen
  have hcaught := hpos.caught hl hs
  have hk := hpos.k_le
  omega

/-! ### A feed whose ring overflows -/

namespace Overflow

/-- A canvas that counts the drawing events. -/
def count (canvas : ℕ) (_ : BroadcastItem) : ℕ := canvas + 1

def item : BroadcastItem where
  payload := .strokeClear
  roomId := 1
  originator := none
  sender := some 7
  seq := 0

/-- A feed subscribed at sequence `5` to a channel that keeps two items. -/
def start : FeedWorld ℕ where
  now := 0
  registered := true
  channelOpen := true
  drawing := ⟨5, 0⟩
  ring := ⟨2, [], 0⟩
  feed := .new 0 1000
  await := .top
  handed := []
  published := []

lemma start_subscribed : start.Subscribed :=
  ⟨rfl, rfl, ⟨[], rfl, rfl⟩, ⟨1000, rfl⟩, rfl, rfl, rfl⟩

/-- Three events overflow the ring; the feed is cancelled while it waits for the snapshot. -/
def moves : List Move :=
  List.replicate 3 (.publishDrawing item) ++ List.replicate 5 .next ++ [.cancel] ++
    List.replicate 3 .next

end Overflow

/-- There the feed hands out one snapshot, at the room's sequence `8`. -/
theorem feed_converges_overflow : ∃ w, Overflow.start.run Overflow.count Overflow.moves = some w ∧
    w.handed = [.drawSync ⟨8, 3⟩] ∧
    ∃ c, Covers 5 w.handed c ∧
      (eventSeqs w.handed).Pairwise (· < ·) ∧
      w.handed.foldl (FeedItem.replay Overflow.count) 0 =
        stateAt Overflow.count ⟨5, 0⟩ w.published c ∧
      w.drawing.canvas = stateAt Overflow.count ⟨5, 0⟩ w.published w.drawing.seq ∧
      c ≤ w.drawing.seq ∧
      (w.feed.lagged = false → w.feed.syncPending = false → w.feed.held = none →
        w.feed.rx = w.ring.sent → c = w.drawing.seq) :=
  ⟨_, rfl, rfl, feed_converges Overflow.count Overflow.start_subscribed Overflow.moves rfl rfl⟩

/-! ### A room that is removed while a feed waits for it -/

/-- Before a drawing event the items reach its predecessor. -/
lemma Covers.before_event {s c : ℕ} {items : List (FeedItem C)} {item : BroadcastItem}
    (h : Covers s (items ++ [.event item]) c) (hseq : item.seq ≠ 0) :
    Covers s items (item.seq - 1) := by
  generalize hl : items ++ [FeedItem.event item] = all at h
  cases h with
  | start => simp at hl
  | other item' h' _ =>
    obtain ⟨-, hi⟩ := List.append_inj' hl rfl
    obtain rfl : item = item' := by simpa using hi
    exact absurd h' hseq
  | event item' h' hc =>
    obtain ⟨rfl, hi⟩ := List.append_inj' hl rfl
    obtain rfl : item = item' := by simpa using hi
    rwa [h', Nat.add_sub_cancel]
  | sync _ _ _ =>
    obtain ⟨-, hi⟩ := List.append_inj' hl rfl
    simp at hi
  | closed _ =>
    obtain ⟨-, hi⟩ := List.append_inj' hl rfl
    simp at hi

/-- No items leave the client where it started. -/
lemma Covers.of_nil {s c : ℕ} (h : Covers s ([] : List (FeedItem C)) c) : c = s := by
  generalize hl : ([] : List (FeedItem C)) = all at h
  cases h with
  | start => rfl
  | other | event | sync | closed => simp at hl

namespace Removed

/-- Three events overflow the ring.  The feed has noticed the loss and is about to look the room up
when the room is removed; it then goes on with what the channel still holds. -/
def moves : List Move :=
  List.replicate 3 (.publishDrawing Overflow.item) ++ List.replicate 4 .next ++ [.removeRoom] ++
    List.replicate 4 .next

/-- The events that the ring kept. -/
def kept : List (FeedItem ℕ) :=
  [.event { Overflow.item with seq := 7 }, .event { Overflow.item with seq := 8 }]

/-- They do not carry a client on from sequence `5`: event `6` is missing. -/
lemma kept_not_covers (c : ℕ) : ¬Covers 5 kept c := by
  intro h
  have h₈ : Covers 5 ([FeedItem.event { Overflow.item with seq := 7 }] ++
      [.event { Overflow.item with seq := 8 }]) c := h
  have h₇ : Covers 5 (([] : List (FeedItem ℕ)) ++ [.event { Overflow.item with seq := 7 }]) 7 :=
    h₈.before_event (by decide)
  have h₆ : Covers 5 ([] : List (FeedItem ℕ)) 6 := h₇.before_event (by decide)
  exact absurd h₆.of_nil (by decide)

/-- The feed hands the kept events out, drains its channel and has nothing pending. -/
lemma run_kept : ∃ w, Overflow.start.run Overflow.count moves = some w ∧ w.handed = kept ∧
    w.feed.lagged = false ∧ w.feed.syncPending = false ∧ w.feed.held = none ∧
    w.feed.rx = w.ring.sent ∧ stateAt Overflow.count ⟨5, 0⟩ w.published 8 = 3 :=
  ⟨_, rfl, rfl, rfl, rfl, rfl, rfl, rfl⟩

end Removed

/-- Without the room there is no snapshot to make up for the loss.  The feed hands out events `7`
and `8` behind a gap, its channel is drained and nothing is pending, and the client's drawing has
two events where the room's has three. -/
theorem not_feed_converges : ∃ w, Overflow.start.run Overflow.count Removed.moves = some w ∧
    w.feed.lagged = false ∧ w.feed.syncPending = false ∧ w.feed.held = none ∧
    w.feed.rx = w.ring.sent ∧ (¬∃ c, Covers 5 w.handed c) ∧
    w.handed.foldl (FeedItem.replay Overflow.count) 0 = 2 ∧
    stateAt Overflow.count ⟨5, 0⟩ w.published 8 = 3 := by
  obtain ⟨w, hrun, hkept, hl, hs, hheld, hrx, hstate⟩ := Removed.run_kept
  refine ⟨w, hrun, hl, hs, hheld, hrx, ?_, ?_, hstate⟩
  · rintro ⟨c, h⟩
    exact Removed.kept_not_covers c (hkept ▸ h)
  · rw [hkept]
    rfl

end Locast.Rooms
