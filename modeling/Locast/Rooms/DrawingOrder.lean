import Locast.Rooms.Canvas
import Mathlib.Data.List.Induction

/-!
# The order of a room's drawing events

Over the life of a room the drawing events are numbered without a gap.  As long as no more strokes
have been ended than a room remembers, it remembers all of them, and its snapshot shows what the
events draw.
-/

namespace Locast.Rooms

open Locast.Lib Locast.Protocol StrokeBookkeeping

/-! ### Ended strokes -/

/-- The `DRAW_END`s. -/
def WirePayload.isStrokeEnd : WirePayload → Bool
  | .strokeEnd _ => true
  | _ => false

/-- How many strokes the items end. -/
def endings (items : List BroadcastItem) : ℕ := items.countP (·.payload.isStrokeEnd)

@[simp] lemma endings_append (items items' : List BroadcastItem) :
    endings (items ++ items') = endings items + endings items' := List.countP_append

lemma isStrokeEnd_payload (e : RoomEvent) : e.payload.isStrokeEnd = e.isEnd := by
  cases e <;> rfl

lemma endings_numbered (roomId : Uuid) (seq : ℕ) (events : List RoomEvent) :
    endings (numbered roomId seq events) = events.countP (·.isEnd) := by
  induction events generalizing seq with
  | nil => rfl
  | cons e events ih =>
    have hitem : (e.item roomId (seq + 1)).payload.isStrokeEnd = e.isEnd := isStrokeEnd_payload e
    rw [numbered, endings, List.countP_cons, List.countP_cons, hitem, ← ih (seq + 1), endings]

variable {verify : VerifyStroke} {s : RoomState} {call : DrawingCall} {events : List RoomEvent}
  {drawing : StrokeBookkeeping}

/-- A stroke that ends is one more to remember. -/
lemma StrokeBookkeeping.committedOrder_le_of_ends {d d' : StrokeBookkeeping}
    {id owner : Uuid} {tsMs : ℤ} (h : d.Ends id owner tsMs d') :
    d'.committedOrder.length ≤ d.committedOrder.length + 1 := by
  obtain ⟨t, gone, hc, rfl⟩ := h
  have hlen := congrArg List.length hc.order_eq
  rw [List.length_append, List.length_append, List.length_singleton] at hlen
  change d.committedOrder.length + 1 = _ at hlen
  rw [(recordEnd_frame t id tsMs).2.2.1]
  omega

lemma StrokeBookkeeping.KeepsPoint.committedOrder_eq {d d' : StrokeBookkeeping}
    {point : StrokePointPayload} (h : d.KeepsPoint point d') :
    d'.committedOrder = d.committedOrder := by
  cases h with
  | evict => exact freed_committedOrder _
  | atLimit => exact freed_committedOrder _
  | giveUp => exact freed_committedOrder _
  | _ => rfl

/-- **A call commits no more strokes than it ends.** -/
lemma Drawn.committedOrder_le (h : Drawn verify s call events drawing) :
    drawing.committedOrder.length ≤ s.drawing.committedOrder.length + events.countP (·.isEnd) := by
  cases h with
  | opened envelope payload userId pubkey nowMs haccept finished t hf =>
    change t.committedOrder.length ≤ _
    cases hf with
    | idle => exact Nat.le_add_right _ _
    | round id stroke finished t hover holdest hs hf =>
      cases hf with
      | cleared => exact Nat.le_add_right _ _
      | ended stroke hs hcl s' he => exact committedOrder_le_of_ends he
  | kept envelope payload userId hr stroke hs hu hcl s' hk =>
    rw [hk.committedOrder_eq]
    exact Nat.le_add_right _ _
  | ended envelope payload userId stroke hs hu hcl s' he => exact committedOrder_le_of_ends he
  | undone =>
    exact (List.length_filter_le _ _).trans (Nat.le_add_right _ _)
  | cleared => exact Nat.zero_le _
  | _ => exact Nat.le_add_right _ _

/-! ### Lives -/

variable {guard : Turn → Prop} {s₀ : RoomState} {turns : List Turn}

lemma map_seq_numbered (roomId : Uuid) (seq : ℕ) (events : List RoomEvent) :
    (numbered roomId seq events).map (·.seq) = (List.range events.length).map (seq + 1 + ·) := by
  induction events generalizing seq with
  | nil => rfl
  | cons e events ih =>
    rw [numbered, List.map_cons, ih, List.length_cons, List.range_succ_eq_map, List.map_cons,
      List.map_map]
    refine congrArg₂ List.cons rfl (List.map_congr_left fun i _ => ?_)
    simp only [Function.comp_apply]
    omega

lemma length_numbered (roomId : Uuid) (seq : ℕ) (events : List RoomEvent) :
    (numbered roomId seq events).length = events.length := by
  simpa using congrArg List.length (map_seq_numbered roomId seq events)

/-- A life up to one of its sections. -/
lemma RoomRun.earlier {later : List Turn} (r : RoomRun guard s₀ (turns ++ later) s) :
    ∃ s', RoomRun guard s₀ turns s' := by
  induction later using List.reverseRecOn generalizing s with
  | nil => exact ⟨s, by simpa using r⟩
  | append_singleton later t ih =>
    obtain ⟨ts, hts⟩ : ∃ ts, ts = turns ++ (later ++ [t]) := ⟨_, rfl⟩
    rw [← hts] at r
    cases r with
    | start => simp at hts
    | turn t' r hg =>
      rw [← List.append_assoc] at hts
      obtain ⟨rfl, -⟩ := List.append_inj' hts rfl
      exact ih r

/-- **The drawing events of a life are numbered one after the other**, up to the room's sequence. -/
theorem RoomRun.seqs (r : RoomRun guard s₀ turns s) (h₀ : s₀.drawing.Bookkept) :
    (published turns).map (·.seq) =
        (List.range (published turns).length).map (s₀.drawing.seq + 1 + ·) ∧
      s.drawing.seq = s₀.drawing.seq + (published turns).length := by
  induction r with
  | start => exact ⟨rfl, rfl⟩
  | turn t r hg ih =>
    obtain ⟨hseqs, hseq⟩ := ih
    obtain ⟨events, drawing, hd⟩ := Section.run_draws (r.bookkept h₀) t.ran
    have hlen : (published [t]).length = events.length := by
      rw [published_singleton, Turn.items, hd.items_eq, length_numbered]
    rw [published_append, List.map_append, List.length_append, hseqs, hlen]
    refine ⟨?_, by rw [hd.drawing_eq, hd.drawn.seq_eq, hseq, Nat.add_assoc]⟩
    rw [published_singleton, Turn.items, hd.items_eq, map_seq_numbered, hd.drawn.seq_eq, hseq,
      List.range_add, List.map_append, List.map_map]
    refine congrArg _ (List.map_congr_left fun i _ => ?_)
    simp only [Function.comp_apply]
    omega

/-- A room remembers no more strokes than were ended. -/
lemma RoomRun.committedOrder_le (r : RoomRun guard s₀ turns s)
    (h₀ : ∃ wallMs, s₀.drawing = .new wallMs) :
    s.drawing.committedOrder.length ≤ endings (published turns) := by
  obtain ⟨wallMs, hnew⟩ := h₀
  induction r with
  | start => rw [hnew]; exact Nat.zero_le _
  | turn t r hg ih =>
    obtain ⟨events, drawing, hd⟩ := Section.run_draws (r.bookkept (hnew ▸ .new wallMs)) t.ran
    rw [published_append, published_singleton, Turn.items, endings_append, hd.items_eq,
      endings_numbered, hd.drawing_eq]
    exact hd.drawn.committedOrder_le.trans (Nat.add_le_add_right ih _)

/-- **A room in which few strokes were ended** holds what a client of its events shows. -/
lemma RoomRun.mirrors_of_endings (r : RoomRun guard s₀ turns s)
    (h₀ : ∃ wallMs, s₀.drawing = .new wallMs)
    (hfew : endings (published turns) ≤ maxCommittedStrokes) :
    s.drawing.Mirrors (replay (published turns)) := by
  have hb₀ : s₀.drawing.Bookkept := by
    obtain ⟨wallMs, hnew⟩ := h₀
    exact hnew ▸ .new wallMs
  induction r with
  | start =>
    obtain ⟨wallMs, hnew⟩ := h₀
    exact hnew ▸ mirrors_new wallMs
  | turn t r hg ih =>
    have hb := r.bookkept hb₀
    obtain ⟨events, drawing, hd⟩ := Section.run_draws hb t.ran
    have hle := r.committedOrder_le h₀
    rw [published_append, published_singleton, endings_append, Turn.items, hd.items_eq,
      endings_numbered] at hfew
    have hroom (hend : ∃ e ∈ events, e.isEnd = true) :
        t.before.drawing.committedOrder.length ≠ maxCommittedStrokes := by
      have hpos : 0 < events.countP (·.isEnd) := List.countP_pos_iff.2 hend
      omega
    have hm := (ih (by omega)).drawn hb hd.drawn hroom
    rw [published_append, published_singleton, replay, List.foldl_append, Turn.items, hd.items_eq,
      foldl_numbered, hd.drawing_eq]
    exact hm.congr rfl rfl rfl

/-- Its snapshot shows what the events draw. -/
lemma RoomRun.shows_of_endings (r : RoomRun guard s₀ turns s)
    (h₀ : ∃ wallMs, s₀.drawing = .new wallMs)
    (hfew : endings (published turns) ≤ maxCommittedStrokes) :
    Shows (replay (published turns)) s.drawing.snapshot := by
  have hb₀ : s₀.drawing.Bookkept := by
    obtain ⟨wallMs, hnew⟩ := h₀
    exact hnew ▸ .new wallMs
  exact (r.mirrors_of_endings h₀ hfew).shows (r.bookkept hb₀)

end Locast.Rooms
