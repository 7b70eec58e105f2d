import Locast.Rooms.DrawingOrder
import Locast.Rooms.FeedInv

/-!
# A feed of a room

`FeedInv` is about any drawing that events change one after the other.  Here the drawing is that of
a room: its sections run and publish what they draw under the room's lock, and a snapshot is of the
room as it is at that moment.  A client that draws what the feed hands out shows what the room
holds.
-/

namespace Locast.Rooms

open Locast.Lib Locast.Protocol FeedWorld

/-! ### What a reader is handed -/

section Handed

variable {C : Type} {f : RoomFeed} {shot : Drawing C}

lemma deliver_ne_drawSync (item : BroadcastItem) :
    (f.deliver item : Progress C).handed ≠ some (.drawSync shot) := by
  unfold RoomFeed.deliver
  split
  · split <;> simp
  · simp

lemma settleLag_ne_drawSync (item : BroadcastItem) (lostDrawing : Bool) :
    (f.settleLag item lostDrawing : Progress C).handed ≠ some (.drawSync shot) := by
  unfold RoomFeed.settleLag
  split
  · simp
  · exact deliver_ne_drawSync item

lemma examine_ne_drawSync (item : BroadcastItem) :
    (f.examine item : Progress C).handed ≠ some (.drawSync shot) := by
  unfold RoomFeed.examine
  split
  · split
    · simp
    · exact settleLag_ne_drawSync item _
  · exact deliver_ne_drawSync item

lemma takeItem_ne_drawSync : (f.takeItem : Progress C).handed ≠ some (.drawSync shot) := by
  unfold RoomFeed.takeItem
  split
  · exact examine_ne_drawSync _
  · simp

lemma finishSeq_ne_drawSync (known : ℕ) (current : Option ℕ) :
    (f.finishSeq known current : Progress C).handed ≠ some (.drawSync shot) := by
  unfold RoomFeed.finishSeq
  split
  · exact settleLag_ne_drawSync _ _
  · simp

/-- **A snapshot that is handed out** is the room's drawing of that moment. -/
lemma nextStep_drawSync {w : FeedWorld C} {p : Progress C} (h : w.nextStep = some p)
    (hp : p.handed = some (.drawSync shot)) : shot = w.drawing := by
  unfold nextStep at h
  cases hawait : w.await with
  | top =>
    simp only [hawait] at h
    split at h
    · split at h <;> cases h <;> cases hp
    · cases h
      exact absurd hp takeItem_ne_drawSync
  | sleep untilMs =>
    simp only [hawait] at h
    split at h
    · cases h
      cases hp
    · cases h
  | snapshotLookup =>
    simp only [hawait] at h
    split at h
    · cases h
      cases hp
    · cases h
      exact absurd hp takeItem_ne_drawSync
  | snapshotRead =>
    simp only [hawait] at h
    cases h
    exact (FeedItem.drawSync.inj (Option.some.inj hp)).symm
  | recv =>
    simp only [hawait] at h
    split at h
    · cases h
      cases hp
    · cases h
      exact absurd hp (examine_ne_drawSync _)
    · split at h
      · cases h
      · cases h
        cases hp
  | seqLookup known =>
    simp only [hawait] at h
    split at h
    · cases h
      cases hp
    · cases h
      exact absurd hp (finishSeq_ne_drawSync _ _)
  | seqRead known =>
    simp only [hawait] at h
    cases h
    exact absurd hp (finishSeq_ne_drawSync _ _)

end Handed

/-! ### What a room publishes -/

section Publish

variable {w w' : FeedWorld Canvas}

lemma send_eq (item : BroadcastItem) : ∃ ring, w.send item = { w with ring } := by
  unfold send
  split
  · exact ⟨_, rfl⟩
  · exact ⟨_, rfl⟩

/-- Items that carry the room's next numbers are published as they are. -/
lemma run_publishDrawing {items : List BroadcastItem}
    (hnumbers : items.map (·.seq) = (List.range items.length).map (w.drawing.seq + 1 + ·))
    (hw : w.run Canvas.apply (items.map .publishDrawing) = some w') :
    w'.published = w.published ++ items ∧ w'.drawing.seq = w.drawing.seq + items.length ∧
      w'.registered = w.registered ∧ w'.handed = w.handed := by
  induction items generalizing w with
  | nil =>
    cases hw
    simp
  | cons item items ih =>
    rw [List.map_cons, run, List.foldlM_cons] at hw
    obtain ⟨mid, hmid, hrest⟩ := Option.bind_eq_some_iff.1 hw
    rw [List.map_cons, List.length_cons, List.range_succ_eq_map, List.map_cons, List.map_map]
      at hnumbers
    obtain ⟨hhead, htail⟩ := List.cons.inj hnumbers
    have hitem : { item with seq := w.drawing.seq + 1 } = item := by
      rw [← Nat.add_zero (_ + 1), ← hhead]
    cases hmid
    rw [hitem] at hrest
    obtain ⟨ring, hring⟩ := send_eq (w := w) item
    rw [hring] at hrest
    obtain ⟨hpublished, hseq, hregistered, hhanded⟩ := ih (by
      rw [htail]
      refine List.map_congr_left fun i _ => ?_
      simp only [Function.comp_apply]
      omega) hrest
    refine ⟨by rw [hpublished, List.append_assoc]; rfl, ?_, hregistered, hhanded⟩
    rw [hseq, List.length_cons]
    simp only
    omega

end Publish

/-- A turn's drawing items carry the numbers after the room's. -/
lemma Turn.seq_items (t : Turn) (hb : t.before.drawing.Bookkept) :
    t.items.map (·.seq) = (List.range t.items.length).map (t.before.drawing.seq + 1 + ·) ∧
      t.out.state.drawing.seq = t.before.drawing.seq + t.items.length := by
  obtain ⟨events, drawing, hd⟩ := Section.run_draws hb t.ran
  have hlen : t.items.length = events.length := by rw [Turn.items, hd.items_eq, length_numbered]
  constructor
  · rw [hlen, Turn.items, hd.items_eq, map_seq_numbered, hd.drawn.seq_eq]
  · rw [hlen, hd.drawing_eq, hd.drawn.seq_eq]

/-! ### The room and its feed -/

/-- What happens beside the room: other items, the clock, and the reader, who may be cancelled. -/
def FeedWorld.Move.aside : FeedWorld.Move → Bool
  | .publishOther _ | .tick | .next | .cancel => true
  | .publishDrawing _ | .removeRoom | .removeChannel => false

/-- **A room that lives on with a reader of its channel**, while the room is registered.  A turn
publishes what it draws in one step, under the room's lock. -/
inductive FeedOf (s₁ : RoomState) (w₀ : FeedWorld Canvas) :
    List Turn → RoomState → FeedWorld Canvas → Prop
  | start : FeedOf s₁ w₀ [] s₁ w₀
  | turn {turns : List Turn} {w w' : FeedWorld Canvas} (t : Turn)
    (r : FeedOf s₁ w₀ turns t.before w)
      (hw : w.run Canvas.apply (t.items.map .publishDrawing) = some w') :
      FeedOf s₁ w₀ (turns ++ [t]) t.out.state w'
  | aside {turns : List Turn} {s : RoomState} {w w' : FeedWorld Canvas} (m : FeedWorld.Move)
      (r : FeedOf s₁ w₀ turns s w) (hm : m.aside = true) (hw : w.step Canvas.apply m = some w') :
      FeedOf s₁ w₀ turns s w'

/-- Every section may run. -/
def anyTurn (_ : Turn) : Prop := True

/-- A reader that subscribes to a room, at any point of its life. -/
structure SubscribedTo (s₀ s₁ : RoomState) (turns₀ : List Turn) (w₀ : FeedWorld Canvas) : Prop where
  fresh : ∃ wallMs, s₀.drawing = .new wallMs
  life : RoomRun anyTurn s₀ turns₀ s₁
  feed : w₀.Subscribed
  drawing : w₀.drawing = ⟨s₁.drawing.seq, replay (published turns₀)⟩

/-- The snapshot `shot` is of the room after `turns`. -/
structure SnapshotOf (s₀ : RoomState) (turns : List Turn) (shot : Drawing Canvas) (s : RoomState) :
    Prop where
  life : RoomRun anyTurn s₀ turns s
  seq : shot.seq = s.drawing.seq
  canvas : shot.canvas = replay (published turns)
  /-- The `DRAW_SYNC` of that moment shows it, as long as the room has forgotten nothing. -/
  shown : endings (published turns) ≤ maxCommittedStrokes → Shows shot.canvas s.drawing.snapshot

section Run

variable {s₀ s₁ s : RoomState} {turns₀ turns : List Turn} {w₀ w : FeedWorld Canvas}

lemma SubscribedTo.bookkept (h : SubscribedTo s₀ s₁ turns₀ w₀) : s₀.drawing.Bookkept := by
  obtain ⟨wallMs, hnew⟩ := h.fresh
  exact hnew ▸ .new wallMs

/-- The room goes on living. -/
lemma FeedOf.life (h : SubscribedTo s₀ s₁ turns₀ w₀) (r : FeedOf s₁ w₀ turns s w) :
    RoomRun anyTurn s₀ (turns₀ ++ turns) s := by
  induction r with
  | start => simpa using h.life
  | turn t r hw ih =>
    rw [← List.append_assoc]
    exact .turn t ih trivial
  | aside m r hm hw ih => exact ih

/-- What holds of the room and the reader after every step. -/
structure FeedOf.Inv (s₀ : RoomState) (turns₀ : List Turn) (w₀ : FeedWorld Canvas)
    (turns : List Turn) (s : RoomState) (w : FeedWorld Canvas) : Prop where
  registered : w.registered = true
  converging : Converging Canvas.apply w₀.drawing w
  seq : w.drawing.seq = s.drawing.seq
  published : w.published = Rooms.published turns
  synced : ∀ shot, .drawSync shot ∈ w.handed → ∃ done later s', turns = done ++ later ∧
    SnapshotOf s₀ (turns₀ ++ done) shot s'

/-- The drawing of the feed's world is what the room published. -/
lemma FeedOf.Inv.snapshotOf (h : SubscribedTo s₀ s₁ turns₀ w₀)
    (hI : FeedOf.Inv s₀ turns₀ w₀ turns s w) (hlife : RoomRun anyTurn s₀ (turns₀ ++ turns) s) :
    SnapshotOf s₀ (turns₀ ++ turns) w.drawing s := by
  have hcanvas : w.drawing.canvas = replay (Rooms.published (turns₀ ++ turns)) := by
    rw [hI.converging.recorded.canvas_eq, hI.published, h.drawing, published_append, replay, replay,
      List.foldl_append]
  refine ⟨hlife, hI.seq, hcanvas, fun hfew => ?_⟩
  rw [hcanvas]
  exact hlife.shows_of_endings h.fresh hfew

/-- What happens beside the room leaves its drawing alone. -/
lemma aside_keeps {w' : FeedWorld Canvas} {m : FeedWorld.Move} (hm : m.aside = true)
    (hw : w.step Canvas.apply m = some w') :
    w'.registered = w.registered ∧ w'.drawing = w.drawing ∧ w'.published = w.published ∧
      ∀ shot, .drawSync shot ∈ w'.handed → .drawSync shot ∈ w.handed ∨ shot = w.drawing := by
  cases m with
  | publishDrawing item => cases hm
  | removeRoom => cases hm
  | removeChannel => cases hm
  | publishOther item =>
    cases hw
    obtain ⟨ring, hring⟩ := send_eq (w := w) { item with seq := 0 }
    rw [hring]
    exact ⟨rfl, rfl, rfl, fun shot h => .inl h⟩
  | tick =>
    cases hw
    exact ⟨rfl, rfl, rfl, fun shot h => .inl h⟩
  | cancel =>
    cases hw
    exact ⟨rfl, rfl, rfl, fun shot h => .inl h⟩
  | next =>
    obtain ⟨p, hp, rfl⟩ := Option.map_eq_some_iff.1 hw
    refine ⟨rfl, rfl, rfl, fun shot h => ?_⟩
    rcases List.mem_append.1 h with h | h
    · exact .inl h
    · exact .inr (nextStep_drawSync hp (Option.mem_toList.1 h))

/-- **A room and its reader keep together.** -/
lemma FeedOf.inv (h : SubscribedTo s₀ s₁ turns₀ w₀) (r : FeedOf s₁ w₀ turns s w) :
    FeedOf.Inv s₀ turns₀ w₀ turns s w := by
  induction r with
  | start =>
    refine ⟨h.feed.registered, h.feed.converging _, by rw [h.drawing], h.feed.published,
      fun shot hs => ?_⟩
    rw [h.feed.handed] at hs
    cases hs
  | turn t r hw ih =>
    have hb : t.before.drawing.Bookkept := (FeedOf.life h r).bookkept h.bookkept
    obtain ⟨hnumbers, hseq⟩ := t.seq_items hb
    rw [← ih.seq] at hnumbers hseq
    obtain ⟨hpublished, hdrawing, hregistered, hhanded⟩ := run_publishDrawing hnumbers hw
    have hconverging := converging_run (fun _ => ih.converging) _ hw
    refine ⟨hregistered.trans ih.registered, hconverging (hregistered.trans ih.registered),
      hdrawing.trans hseq.symm, ?_, fun shot hs => ?_⟩
    · rw [hpublished, ih.published, published_append, published_singleton]
    · rw [hhanded] at hs
      obtain ⟨done, later, s', hturns, hsnapshot⟩ := ih.synced shot hs
      exact ⟨done, later ++ [t], s', by rw [hturns, List.append_assoc], hsnapshot⟩
  | @aside turns s w w' m r hm hw ih =>
    obtain ⟨hregistered, hdrawing, hpublished, hhanded⟩ := aside_keeps hm hw
    have hconverging := converging_step (fun _ => ih.converging) hw
    refine ⟨hregistered.trans ih.registered, hconverging (hregistered.trans ih.registered), ?_,
      hpublished.trans ih.published, fun shot hs => ?_⟩
    · rw [hdrawing, ih.seq]
    · rcases hhanded shot hs with hold | rfl
      · exact ih.synced shot hold
      · exact ⟨turns, [], s, by simp, ih.snapshotOf h (FeedOf.life h r)⟩

/-- The drawing as of the sequence number `c`. -/
lemma stateAt_eq {w : FeedWorld Canvas} {c : ℕ} (h : SubscribedTo s₀ s₁ turns₀ w₀)
    (hpublished : w.published = published turns) (hc : w₀.drawing.seq ≤ c) :
    stateAt Canvas.apply w₀.drawing w.published c =
      replay ((published (turns₀ ++ turns)).take (c - s₀.drawing.seq)) := by
  have hbase := (h.life.seqs h.bookkept).2
  rw [h.drawing] at hc
  have hplace : c - s₀.drawing.seq = (published turns₀).length + (c - s₁.drawing.seq) := by
    simp only at hc
    omega
  rw [stateAt, hpublished, h.drawing, hplace, published_append, List.take_length_add_append, replay,
    replay, List.foldl_append]

/-- The reader has drained the channel and nothing is pending. -/
def FeedWorld.Drained (w : FeedWorld Canvas) : Prop :=
  w.feed.lagged = false ∧ w.feed.syncPending = false ∧ w.feed.held = none ∧ w.feed.rx = w.ring.sent

/-- What the client of a reader shows: it draws what it is handed, on what it had when it
subscribed. -/
def FeedWorld.shown (w₀ w : FeedWorld Canvas) : Canvas :=
  w.handed.foldl (FeedItem.replay Canvas.apply) w₀.drawing.canvas

/-- **What the client shows of the room.** -/
structure FeedShows (s₀ : RoomState) (turns₀ turns : List Turn) (s : RoomState)
    (w₀ w : FeedWorld Canvas) : Prop where
  /-- It is always at some number of the room's drawing, with no event missed or repeated. -/
  placed : ∃ c ≤ s.drawing.seq, Covers w₀.drawing.seq w.handed c ∧
    w₀.shown w = replay ((published (turns₀ ++ turns)).take (c - s₀.drawing.seq)) ∧
    (w.Drained → c = s.drawing.seq)
  /-- What it was handed as a snapshot is what the room held at some moment since it subscribed. -/
  synced : ∀ shot, .drawSync shot ∈ w.handed → ∃ done later s', turns = done ++ later ∧
    SnapshotOf s₀ (turns₀ ++ done) shot s'
  /-- A client that has caught up shows every stroke that was drawn, and what the room holds. -/
  current : w.Drained → w₀.shown w = replay (published (turns₀ ++ turns)) ∧
    (endings (published (turns₀ ++ turns)) ≤ maxCommittedStrokes →
      Shows (w₀.shown w) s.drawing.snapshot)

/-- **A feed shows its room.**  In every life of a room, with any sections, and for every reader
that subscribes at any point of it, with any overflow of the channel, any other items on it and any
cancellation. -/
theorem feed_shows_room (h : SubscribedTo s₀ s₁ turns₀ w₀) (r : FeedOf s₁ w₀ turns s w) :
    FeedShows s₀ turns₀ turns s w₀ w := by
  have hI := r.inv h
  have hlife := r.life h
  obtain ⟨log, c, k, hring, hpos, hcov, hreplay⟩ := hI.converging.positioned
  have hrecorded := hI.converging.recorded.seq_eq
  have hle := hpos.le_seq
  have hdrained (hd : w.Drained) : c = s.drawing.seq := by
    obtain ⟨hlagged, hpending, hheld, hrx⟩ := hd
    -- nothing is left in the channel, so the reader is behind every drawing event
    have hrest := hpos.pending_eq
    rw [RoomFeed.pendingDrawing, hheld, hrx, hring.sent_eq, List.drop_length] at hrest
    have hlen := congrArg List.length hrest
    simp only [Option.toList_none, List.append_nil, List.filter_nil, List.length_nil,
      List.length_drop] at hlen
    have hcaught := hpos.caught hlagged hpending
    have hk := hpos.k_le
    have hseq := hI.seq
    omega
  have hshown : w₀.shown w = replay ((published (turns₀ ++ turns)).take (c - s₀.drawing.seq)) := by
    rw [FeedWorld.shown, hreplay]
    exact stateAt_eq h hI.published hcov.le
  have hcurrent (hd : w.Drained) : w₀.shown w = replay (published (turns₀ ++ turns)) := by
    have hall := (hlife.seqs h.bookkept).2
    rw [hshown, List.take_of_length_le (by rw [hdrained hd, hall]; omega)]
  refine ⟨⟨c, by rw [← hI.seq]; omega, hcov, hshown, hdrained⟩, hI.synced, fun hd =>
    ⟨hcurrent hd, ?_⟩⟩
  intro hfew
  rw [hcurrent hd]
  exact hlife.shows_of_endings h.fresh hfew

end Run

/-! ### A host who begins a stroke -/

namespace FirstStroke

lemma runs : ((Crowded.begin 0).run Crowded.env Crowded.store Crowded.start).isSome = true := by
  decide

def begun : Turn where
  env := Crowded.env
  store := Crowded.store
  sec := Crowded.begin 0
  before := Crowded.start
  out := ((Crowded.begin 0).run Crowded.env Crowded.store Crowded.start).get runs
  ran := (Option.some_get runs).symm

/-- A reader that subscribes before the stroke. -/
def start : FeedWorld Canvas where
  now := 0
  registered := true
  channelOpen := true
  drawing := ⟨Crowded.start.drawing.seq, ∅⟩
  ring := ⟨2, [], 0⟩
  feed := .new 0 1000
  await := .top
  handed := []
  published := []

lemma subscribed : SubscribedTo Crowded.start Crowded.start [] start :=
  ⟨⟨0, rfl⟩, .start, ⟨rfl, rfl, ⟨[], rfl, rfl⟩, ⟨1000, rfl⟩, rfl, rfl, rfl⟩, rfl⟩

def moves : List FeedWorld.Move := begun.items.map .publishDrawing

lemma publishes : (start.run Canvas.apply moves).isSome = true := by decide

def published : FeedWorld Canvas := (start.run Canvas.apply moves).get publishes

lemma waits : (published.step Canvas.apply .next).isSome = true := by decide

def waiting : FeedWorld Canvas := (published.step Canvas.apply .next).get waits

lemma reads : (waiting.step Canvas.apply .next).isSome = true := by decide

def read : FeedWorld Canvas := (waiting.step Canvas.apply .next).get reads

lemma run : FeedOf Crowded.start start [begun] begun.out.state read :=
  .aside .next (.aside .next (.turn begun .start (Option.some_get publishes).symm) rfl
    (Option.some_get waits).symm) rfl (Option.some_get reads).symm

end FirstStroke

/-- The stroke is published; the reader waits for it and gets it. -/
theorem feed_shows_room_first :
    FeedShows Crowded.start [] [FirstStroke.begun] FirstStroke.begun.out.state FirstStroke.start
      FirstStroke.read ∧ FirstStroke.read.Drained ∧
        (1 : Uuid) ∈ FirstStroke.start.shown FirstStroke.read :=
  ⟨feed_shows_room FirstStroke.subscribed FirstStroke.run,
    ⟨by decide, by decide, by decide, by decide⟩, by decide⟩

end Locast.Rooms
