import Locast.Lib.Ring
import Locast.Rooms.Events

/-!
# A connection's room feed (`rooms/feed.rs`)

`RoomFeed::next` reads a room's bounded channel and repairs what the channel dropped with a snapshot
of the room's drawing.  A drawing event is applied to the room and published with the room's next
sequence number in one step, since both happen under the room's write lock.

The drawing itself is a parameter: `C` is what a `DRAW_SYNC` carries and `apply` how one drawing
event changes it.  `next` is cut at its awaits; the fields of the feed survive a cancellation, the
place in the code (`Await`) does not.
-/

namespace Locast.Rooms

open Locast.Lib

/-- A room's drawing with its sequence number: also what `drawing_snapshot` returns. -/
structure Drawing (C : Type) where
  seq : ℕ
  canvas : C

/-- What `RoomFeed::next` produced. -/
inductive FeedItem (C : Type) where
  | event (item : BroadcastItem)
  | drawSync (snapshot : Drawing C)
  | closed

structure RoomFeed where
  rx : ℕ
  minSyncInterval : ℕ
  lastSync : Option ℕ
  drawFloor : ℕ
  lastSeen : ℕ
  lagged : Bool
  syncPending : Bool
  held : Option BroadcastItem

/-- `RoomFeed::with_min_sync_interval` on a receiver at position `rx`. -/
def RoomFeed.new (rx minSyncInterval : ℕ) : RoomFeed where
  rx := rx
  minSyncInterval := minSyncInterval
  lastSync := none
  drawFloor := 0
  lastSeen := 0
  lagged := false
  syncPending := false
  held := none

/-- Where `next` is: outside or at the top of its loop, or at one of its awaits.  Looking a room up
and reading it are two awaits. -/
inductive Await where
  | top
  | sleep (untilMs : ℕ)
  | snapshotLookup
  | snapshotRead
  | recv
  | seqLookup (have_ : ℕ)
  | seqRead (have_ : ℕ)

/-- The feed, where it is, and the item it returned, if it did. -/
structure Progress (C : Type) where
  feed : RoomFeed
  await : Await
  handed : Option (FeedItem C)

namespace RoomFeed

variable {C : Type}

/-- `self.draw_floor.max(self.last_seen)`. -/
def known (f : RoomFeed) : ℕ := max f.drawFloor f.lastSeen

/-- The end of the loop, with an item that no lag is pending for. -/
def deliver (f : RoomFeed) (item : BroadcastItem) : Progress C :=
  if item.seq ≠ 0 then
    if item.seq ≤ f.drawFloor then ⟨f, .top, none⟩
    else ⟨{ f with lastSeen := max f.lastSeen item.seq }, .top, some (.event item)⟩
  else ⟨f, .top, some (.event item)⟩

/-- The first item after a lag, once it is known whether the lag cost a drawing event. -/
def settleLag (f : RoomFeed) (item : BroadcastItem) (lostDrawing : Bool) : Progress C :=
  if lostDrawing then ⟨{ f with lagged := false, syncPending := true, held := some item }, .top,
    none⟩
  else { f with lagged := false }.deliver item

/-- An item in hand. -/
def examine (f : RoomFeed) (item : BroadcastItem) : Progress C :=
  if f.lagged then
    if item.seq = 0 then ⟨{ f with held := some item }, .seqLookup f.known, none⟩
    else f.settleLag item (f.known + 1 < item.seq)
  else f.deliver item

/-- The item part of the loop: the held item, or a wait for one. -/
def takeItem (f : RoomFeed) : Progress C :=
  match f.held with
  | some item => { f with held := none }.examine item
  | none => ⟨f, .recv, none⟩

/-- The snapshot part of the loop, with the result of `drawing_snapshot`. -/
def finishSync (f : RoomFeed) (now : ℕ) : Option (Drawing C) → Progress C
  | some snapshot => ⟨{ f with
      syncPending := false
      lastSync := some now
      drawFloor := max f.drawFloor snapshot.seq
      lastSeen := max f.lastSeen snapshot.seq }, .top, some (.drawSync snapshot)⟩
  | none => { f with syncPending := false, lastSync := some now }.takeItem

/-- `drawing_seq` has answered for the parked item. -/
def finishSeq (f : RoomFeed) (known : ℕ) (current : Option ℕ) : Progress C :=
  match f.held with
  | some item => { f with held := none }.settleLag item (current.any fun seq => known < seq)
  | none => ⟨f, .top, none⟩

end RoomFeed

/-! ### The feed among the publishers -/

/-- One feed, its room and the room's channel.  `handed` is everything `next` returned since the
subscription and `published` the drawing events published since then; both are ghosts. -/
structure FeedWorld (C : Type) where
  now : ℕ
  registered : Bool
  channelOpen : Bool
  drawing : Drawing C
  ring : RingBuffer BroadcastItem
  feed : RoomFeed
  await : Await
  handed : List (FeedItem C)
  published : List BroadcastItem

namespace FeedWorld

variable {C : Type}

/-- `next` run up to its next await or return; `none` while it has to wait. -/
def nextStep (w : FeedWorld C) : Option (Progress C) :=
  match w.await with
  | .top =>
    if w.feed.syncPending then
      match w.feed.lastSync with
      | some last => some ⟨w.feed, .sleep (last + w.feed.minSyncInterval), none⟩
      | none => some ⟨w.feed, .snapshotLookup, none⟩
    else some w.feed.takeItem
  | .sleep untilMs => if untilMs ≤ w.now then some ⟨w.feed, .snapshotLookup, none⟩ else none
  | .snapshotLookup =>
    if w.registered then some ⟨w.feed, .snapshotRead, none⟩ else some (w.feed.finishSync w.now none)
  | .snapshotRead => some (w.feed.finishSync w.now (some w.drawing))
  | .recv =>
    match w.ring.recv w.feed.rx with
    | (.lagged _, rx) => some ⟨{ w.feed with rx, lagged := true }, .top, none⟩
    | (.item item, rx) => some ({ w.feed with rx }.examine item)
    | (.empty, _) => if w.channelOpen then none else some ⟨w.feed, .top, some .closed⟩
  | .seqLookup known =>
    if w.registered then some ⟨w.feed, .seqRead known, none⟩ else some (w.feed.finishSeq known none)
  | .seqRead known => some (w.feed.finishSeq known (some w.drawing.seq))

/-- What can happen next.  The channel is removed only after the room. -/
inductive Move where
  | publishDrawing (item : BroadcastItem)
  | publishOther (item : BroadcastItem)
  | tick
  | removeRoom
  | removeChannel
  | next
  | cancel

/-- `publish`: nothing happens without a channel. -/
def send (w : FeedWorld C) (item : BroadcastItem) : FeedWorld C :=
  if w.channelOpen then { w with ring := w.ring.send item } else w

def step (apply : C → BroadcastItem → C) (w : FeedWorld C) : Move → Option (FeedWorld C)
  | .publishDrawing item =>
    let numbered := { item with seq := w.drawing.seq + 1 }
    some { w.send numbered with
      drawing := ⟨w.drawing.seq + 1, apply w.drawing.canvas numbered⟩
      published := w.published ++ [numbered] }
  | .publishOther item => some (w.send { item with seq := 0 })
  | .tick => some { w with now := w.now + 1 }
  | .removeRoom => some { w with registered := false }
  | .removeChannel => if w.registered then none else some { w with channelOpen := false }
  | .next => w.nextStep.map fun p =>
      { w with feed := p.feed, await := p.await, handed := w.handed ++ p.handed.toList }
  | .cancel => some { w with await := .top }

/-- A run from `w`. -/
def run (apply : C → BroadcastItem → C) (w : FeedWorld C) (moves : List Move) :
    Option (FeedWorld C) :=
  moves.foldlM (fun w move => w.step apply move) w

/-- A feed that has just subscribed to a registered room, at any point of the room's life. -/
structure Subscribed (w : FeedWorld C) : Prop where
  registered : w.registered = true
  channelOpen : w.channelOpen = true
  ring : ∃ log, w.ring.Holds log
  feed : ∃ minSyncInterval, w.feed = .new w.ring.sent minSyncInterval
  await : w.await = .top
  handed : w.handed = []
  published : w.published = []

end FeedWorld

/-! ### What a client makes of the items -/

section Client

variable {C : Type}

/-- A client's canvas after one more item. -/
def FeedItem.replay (apply : C → BroadcastItem → C) (canvas : C) : FeedItem C → C
  | .event item => if item.seq = 0 then canvas else apply canvas item
  | .drawSync snapshot => snapshot.canvas
  | .closed => canvas

/-- The room's drawing state at sequence `seq`, from its drawing at the subscription and the drawing
events published since. -/
def stateAt (apply : C → BroadcastItem → C) (base : Drawing C) (published : List BroadcastItem)
    (seq : ℕ) : C :=
  (published.take (seq - base.seq)).foldl apply base.canvas

/-- The items carry a client from sequence `s` to sequence `c`: each drawing event handed out is the
next one, and a snapshot never goes back. -/
inductive Covers (s : ℕ) : List (FeedItem C) → ℕ → Prop
  | start : Covers s [] s
  | other {items : List (FeedItem C)} {c : ℕ} (item : BroadcastItem) (h : item.seq = 0)
      (hc : Covers s items c) : Covers s (items ++ [.event item]) c
  | event {items : List (FeedItem C)} {c : ℕ} (item : BroadcastItem) (h : item.seq = c + 1)
      (hc : Covers s items c) : Covers s (items ++ [.event item]) (c + 1)
  | sync {items : List (FeedItem C)} {c : ℕ} (snapshot : Drawing C) (h : c ≤ snapshot.seq)
      (hc : Covers s items c) : Covers s (items ++ [.drawSync snapshot]) snapshot.seq
  | closed {items : List (FeedItem C)} {c : ℕ} (hc : Covers s items c) :
      Covers s (items ++ [.closed]) c

/-- The sequence numbers of the drawing events among the items. -/
def eventSeqs (items : List (FeedItem C)) : List ℕ :=
  items.filterMap fun
    | .event item => if item.seq = 0 then none else some item.seq
    | _ => none

lemma Covers.le {s c : ℕ} {items : List (FeedItem C)} (h : Covers s items c) : s ≤ c := by
  induction h with
  | start => exact le_rfl
  | other _ _ _ ih => exact ih
  | event _ _ _ ih => exact Nat.le_succ_of_le ih
  | sync _ h _ ih => exact ih.trans h
  | closed _ ih => exact ih

lemma Covers.eventSeqs_le {s c : ℕ} {items : List (FeedItem C)} (h : Covers s items c) :
    ∀ n ∈ eventSeqs items, n ≤ c := by
  unfold eventSeqs
  induction h with
  | start => simp
  | other item h _ ih => simpa [h] using ih
  | event item h _ ih =>
    intro n hn
    simp only [List.filterMap_append, List.mem_append] at hn
    rcases hn with hn | hn
    · exact Nat.le_succ_of_le (ih n hn)
    · simp [h] at hn
      omega
  | sync snapshot h _ ih =>
    intro n hn
    simp only [List.filterMap_append, List.mem_append] at hn
    rcases hn with hn | hn
    · exact (ih n hn).trans h
    · simp at hn
  | closed _ ih => simpa using ih

/-- **The delivered drawing events are strictly increasing.** -/
theorem Covers.eventSeqs_sorted {s c : ℕ} {items : List (FeedItem C)} (h : Covers s items c) :
    (eventSeqs items).Pairwise (· < ·) := by
  induction h with
  | start => simp [eventSeqs]
  | other item h _ ih => simpa [eventSeqs, h] using ih
  | @event items c item h hc ih =>
    have hle := hc.eventSeqs_le
    unfold eventSeqs at ih hle ⊢
    rw [List.filterMap_append, List.pairwise_append]
    refine ⟨ih, by simp [h], fun a ha b hb => ?_⟩
    simp [h] at hb
    have := hle a ha
    omega
  | sync _ _ _ ih => simpa [eventSeqs] using ih
  | closed _ ih => simpa [eventSeqs] using ih

end Client

end Locast.Rooms
