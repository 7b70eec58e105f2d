import Locast.Rooms.DrawingInv
import Locast.Rooms.SectionSpec

/-!
# The drawing events of a room

A room's life is a sequence of write sections (`Turn`, `RoomRun`).  Each section makes the drawing
events of one handler call and publishes them, numbered by the room's drawing sequence, in the same
section (`Turn.drawn`); the other sections neither draw nor publish a drawing event.
-/

namespace Locast.Rooms

open Locast.Lib Locast.Protocol StrokeBookkeeping

/-! ### Items -/

/-- The payloads of drawing events. -/
def WirePayload.isDrawing : WirePayload → Bool
  | .strokeBegin _ | .strokePoint _ | .strokeEnd _ | .strokeUndo _ | .strokeClear => true
  | _ => false

/-- The drawing items among those a section sent, in order. -/
def drawingItems (sent : List (Uuid × BroadcastItem)) : List BroadcastItem :=
  (sent.map (·.2)).filter (·.payload.isDrawing)

/-- The item an event that is not split becomes. -/
def RoomEvent.item (roomId : Uuid) (seq : ℕ) (e : RoomEvent) : BroadcastItem :=
  { eventToBroadcastItem e (e.ownRoom.getD roomId) e.originator with seq }

/-- The items of a section's drawing events: the first takes the number after `seq`. -/
def numbered (roomId : Uuid) (seq : ℕ) : List RoomEvent → List BroadcastItem
  | [] => []
  | e :: events => e.item roomId (seq + 1) :: numbered roomId (seq + 1) events

lemma RoomEvent.isDrawing_payload {e : RoomEvent} (h : e.isDrawing = true) :
    e.payload.isDrawing = true := by
  cases e <;> first | rfl | cases h

lemma publishEvent_drawing {e : RoomEvent} (h : e.isDrawing = true) (split : SplitForWire)
    (roomId : Uuid) (seq : ℕ) :
    publishEvent split roomId seq e = (e.ownRoom.getD roomId, [e.item roomId seq]) := by
  cases e <;> first | rfl | cases h

/-- **Publishing drawing events** under the lock numbers them from the room's sequence. -/
lemma publishDrawingEventsLocked_eq (split : SplitForWire) (roomId : Uuid)
    {events : List RoomEvent} (hd : ∀ e ∈ events, e.isDrawing = true)
    (drawing : StrokeBookkeeping) :
    drawingItems (publishDrawingEventsLocked split roomId events drawing).1 =
        numbered roomId drawing.seq events ∧
      (publishDrawingEventsLocked split roomId events drawing).2 =
        { drawing with seq := drawing.seq + events.length } := by
  induction events generalizing drawing with
  | nil => exact ⟨rfl, rfl⟩
  | cons e events ih =>
    have he := hd e List.mem_cons_self
    obtain ⟨hitems, hstate⟩ :=
      ih (fun e' he' => hd e' (List.mem_cons_of_mem _ he')) drawing.nextSeq.2
    have hitem : (e.item roomId (drawing.seq + 1)).payload.isDrawing = true :=
      RoomEvent.isDrawing_payload he
    constructor
    · simp only [publishDrawingEventsLocked, publishEvent_drawing he, drawingItems, List.map_cons,
        List.map_nil, List.cons_append, List.nil_append, numbered]
      rw [List.filter_cons_of_pos (by exact hitem)]
      exact congrArg _ hitems
    · simp only [publishDrawingEventsLocked]
      rw [hstate]
      simp [nextSeq, Nat.add_comm, Nat.add_left_comm]

/-- What an item carries on. -/
lemma mem_numbered {roomId : Uuid} {seq : ℕ} {events : List RoomEvent} {i : BroadcastItem}
    (hi : i ∈ numbered roomId seq events) :
    seq < i.seq ∧ i.seq ≤ seq + events.length ∧
      ∃ e ∈ events, i.payload = e.payload ∧ i.sender = e.sender := by
  induction events generalizing seq with
  | nil => cases hi
  | cons e events ih =>
    rcases List.mem_cons.1 hi with rfl | hi
    · exact ⟨Nat.lt_succ_self _, by simp [RoomEvent.item], e, List.mem_cons_self, rfl, rfl⟩
    · obtain ⟨hlt, hle, e', he', hp⟩ := ih hi
      refine ⟨by omega, by simp only [List.length_cons]; omega, e', List.mem_cons_of_mem _ he', hp⟩

lemma mem_numbered_of_mem (roomId : Uuid) (seq : ℕ) {events : List RoomEvent} {e : RoomEvent}
    (he : e ∈ events) : ∃ i ∈ numbered roomId seq events,
      i.payload = e.payload ∧ i.sender = e.sender := by
  induction events generalizing seq with
  | nil => cases he
  | cons e' events ih =>
    rcases List.mem_cons.1 he with rfl | he
    · exact ⟨_, List.mem_cons_self, rfl, rfl⟩
    · obtain ⟨i, hi, hp⟩ := ih (seq + 1) he
      exact ⟨i, List.mem_cons_of_mem _ hi, hp⟩

/-! ### Sections -/

/-- The call of a drawing handler a section makes; any other section is elsewhere, and so is a
`DRAW_BEGIN` of a user who may not draw. -/
def Section.drawingCall (s : RoomState) : Section → DrawingCall
  | .strokeBegin envelope p userId pubkey nowMs =>
    if s.presentCan userId .drawing .drawBegin then .begin envelope p userId pubkey nowMs
    else .elsewhere s
  | .strokePoint envelope p userId => .point envelope p userId
  | .strokeEnd envelope p userId => .finish envelope p userId
  | .strokeUndo envelope p userId => .undo envelope p userId
  | .strokeClear userId => .clear userId
  | _ => .elsewhere s

/-- The handlers leave the numbering to the publisher. -/
lemma Drawn.seq_eq {verify : VerifyStroke} {s : RoomState} {call : DrawingCall}
    {events : List RoomEvent} {drawing : StrokeBookkeeping}
    (h : Drawn verify s call events drawing) : drawing.seq = s.drawing.seq := by
  have hends {d d' : StrokeBookkeeping} {id owner : Uuid} {tsMs : ℤ}
      (he : d.Ends id owner tsMs d') : d'.seq = d.seq := by
    obtain ⟨t, gone, hc, rfl⟩ := he
    rw [recordEnd_seq, hc.seq_eq]
    rfl
  cases h with
  | silent => rfl
  | opened envelope payload userId pubkey nowMs haccept finished t hf =>
    cases hf with
    | idle => rfl
    | round id stroke finished t hover holdest hs hf hu hr =>
      cases hf with
      | cleared => rfl
      | ended stroke hs hcl s' he =>
        change t.seq = _
        exact hends he
  | kept envelope payload userId hr stroke hs hu hcl s' hk =>
    cases hk with
    | evict => simp [appended]
    | giveUp => simp
    | atLimit => simp
    | _ => rfl
  | ended envelope payload userId stroke hs hu hcl s' he => exact hends he
  | _ => rfl

section DrawingCall

variable {s : RoomState} {sec : Section} {envelope : Envelope} {userId : Uuid}

lemma drawingCall_eq_begin {p : Except String StrokeBeginPayload} {pubkey : PubKey} {nowMs : ℤ}
    (h : sec.drawingCall s = .begin envelope p userId pubkey nowMs) :
    sec = .strokeBegin envelope p userId pubkey nowMs ∧
      s.presentCan userId .drawing .drawBegin = true := by
  cases sec with
  | strokeBegin =>
    simp only [Section.drawingCall] at h
    split at h
    · cases h
      exact ⟨rfl, ‹_›⟩
    · cases h
  | _ => cases h

lemma drawingCall_eq_point {p : Except String StrokePointPayload}
    (h : sec.drawingCall s = .point envelope p userId) : sec = .strokePoint envelope p userId := by
  cases sec with
  | strokeBegin =>
    simp only [Section.drawingCall] at h
    split at h <;> cases h
  | strokePoint => cases h; rfl
  | _ => cases h

lemma drawingCall_eq_finish {p : Except String StrokeEndPayload}
    (h : sec.drawingCall s = .finish envelope p userId) : sec = .strokeEnd envelope p userId := by
  cases sec with
  | strokeBegin =>
    simp only [Section.drawingCall] at h
    split at h <;> cases h
  | strokeEnd => cases h; rfl
  | _ => cases h

end DrawingCall

/-- A section as it ran on a room. -/
structure Turn where
  env : SectionEnv
  store : Store
  sec : Section
  before : RoomState
  out : SectionOutcome sec.Reply
  ran : sec.run env store before = some out

namespace Turn

/-- The drawing items it published. -/
def items (t : Turn) : List BroadcastItem := drawingItems t.out.sent

/-- The handler call it made. -/
def call (t : Turn) : DrawingCall := t.sec.drawingCall t.before

end Turn

/-- A section that publishes no drawing event. -/
lemma drawingItems_of_quiet {sent : List (Uuid × BroadcastItem)}
    (h : ∀ i ∈ sent, i.2.payload.isDrawing = false) : drawingItems sent = [] := by
  refine List.filter_eq_nil_iff.2 fun item hitem => ?_
  obtain ⟨i, hi, rfl⟩ := List.mem_map.1 hitem
  rw [h i hi]
  exact Bool.false_ne_true

/-- An event that is no drawing event, on the wire. -/
lemma publishEvents_quiet {split : SplitForWire} {roomId : Uuid} {e : RoomEvent}
    (h : e.payload.isDrawing = false) : drawingItems (publishEvents split roomId [e]) = [] := by
  refine drawingItems_of_quiet fun i hi => ?_
  obtain ⟨e', he', -, hitem⟩ := mem_publishEvents hi
  rw [List.mem_singleton.1 he'] at hitem
  rcases (publishEvent_spec split roomId 0 e).2 with ⟨it, hit, hpay⟩ | ⟨-, hpart⟩
  · rw [hit, List.mem_singleton] at hitem
    rw [hitem, hpay, h]
  · obtain ⟨part, hp⟩ := hpart _ hitem
    rw [hp]
    rfl

lemma electNewHost_drawing {s s' : RoomState} {v : Uuid} (h : electNewHost s = some (v, s')) :
    s'.drawing = s.drawing := by
  obtain ⟨-, -, -, -, rfl⟩ := electNewHost_spec h
  rfl

lemma LeaveCase.drawing {cfg : RoomRegistryConfig} {s : RoomState} {leaver : ParticipantRecord}
    {nowMs : ℤ} {intentional : Bool} {out : LeaveOutcome}
    (h : LeaveCase cfg s leaver nowMs intentional out) : out.state.drawing = s.drawing := by
  cases h with
  | view => rfl
  | close => rfl
  | migrate v m _ _ he => exact (electNewHost_drawing he).trans rfl
  | wait =>
    simp only [leaveWaiting]
    split
    · cases he : electNewHost { s.mark leaver.userId .reconnecting nowMs with
          hostDisconnectDeadlineMs := some (nowMs + cfg.hostDisconnectGraceMs) } with
      | none => rfl
      | some e => exact (electNewHost_drawing he).trans rfl
    · rfl

/-- What a section does to a room's drawing: the events of its call, and the drawing before they are
numbered. -/
structure DrawsItems (env : SectionEnv) (s : RoomState) (sec : Section)
    (out : SectionOutcome sec.Reply) (events : List RoomEvent) (drawing : StrokeBookkeeping) :
    Prop where
  drawn : Drawn env.crates.verifyStroke s (sec.drawingCall s) events drawing
  items_eq : drawingItems out.sent = numbered s.id drawing.seq events
  drawing_eq : out.state.drawing = { drawing with seq := drawing.seq + events.length }

/-- The events of the drawing handlers are drawing events. -/
lemma Drawn.isDrawing {verify : VerifyStroke} {s : RoomState} {call : DrawingCall}
    {events : List RoomEvent} {drawing : StrokeBookkeeping}
    (h : Drawn verify s call events drawing) : ∀ e ∈ events, e.isDrawing = true := by
  cases h with
  | opened =>
    intro e he
    rcases List.mem_append.1 he with he | he
    · obtain ⟨stroke, -, rfl⟩ := List.mem_map.1 he
      rfl
    · rw [List.mem_singleton.1 he]
      rfl
  | _ => simp [RoomEvent.isDrawing]

/-- A section that does not draw. -/
lemma DrawsItems.quiet {env : SectionEnv} {s : RoomState} {sec : Section}
    {out : SectionOutcome sec.Reply} (hd : out.state.drawing = s.drawing)
    (hi : drawingItems out.sent = [])
    (hc : (sec.drawingCall s).accepted env.crates.verifyStroke s = false) :
    DrawsItems env s sec out [] s.drawing :=
  ⟨.silent _ hc, hi, hd⟩

/-- A handler whose events are published under the lock. -/
lemma DrawsItems.of_drawn {env : SectionEnv} {s : RoomState} {sec : Section}
    {out : SectionOutcome sec.Reply} {o : RoomDispatchOutcome} {drawing : StrokeBookkeeping}
    (ho : Drawn env.crates.verifyStroke s (sec.drawingCall s) o.events drawing)
    (hsent : out.sent =
      (publishDrawingEventsLocked env.crates.splitPublished s.id o.events drawing).1)
    (hstate : out.state.drawing =
      (publishDrawingEventsLocked env.crates.splitPublished s.id o.events drawing).2) :
    DrawsItems env s sec out o.events drawing := by
  obtain ⟨hitems, hseq⟩ :=
    publishDrawingEventsLocked_eq env.crates.splitPublished s.id ho.isDrawing drawing
  exact ⟨ho, by rw [hsent, hitems], hstate.trans hseq⟩

/-- **Every section draws what its call draws.** -/
theorem Section.run_draws {env : SectionEnv} {store : Store} {s : RoomState}
    (hb : s.drawing.Bookkept) {sec : Section} {out : SectionOutcome sec.Reply}
    (h : sec.run env store s = some out) :
    ∃ events drawing, DrawsItems env s sec out events drawing := by
  cases sec with
  | join u pubkey displayName nowMs =>
    obtain ⟨⟨reply, s', store'⟩, hj, rfl⟩ := Option.map_eq_some_iff.1 h
    rcases joinLocked_spec hj with ⟨e, -, rfl⟩ | ⟨joined, -, -, -, -, rfl, -⟩
    · exact ⟨_, _, .quiet rfl rfl rfl⟩
    · exact ⟨_, _, .quiet rfl rfl rfl⟩
  | leave u intentional nowMs =>
    simp only [Section.run] at h
    split at h
    · cases h
      exact ⟨_, _, .quiet rfl rfl rfl⟩
    · rename_i out' hl
      cases h
      obtain ⟨-, leaver, -, -, hcase⟩ := leaveLocked_spec hl
      exact ⟨_, _, .quiet hcase.drawing rfl rfl⟩
  | connectionLost u nowMs =>
    cases h
    refine ⟨_, _, .quiet ?_ rfl rfl⟩
    simp only [SectionOutcome.quiet, connectionLostLocked]
    split <;> rfl
  | rejoinHost u pubkey nowMs =>
    cases h
    exact ⟨_, _, .quiet rfl rfl rfl⟩
  | rejoin u pubkey nowMs =>
    cases h
    exact ⟨_, _, .quiet rfl rfl rfl⟩
  | touch u nowMs =>
    cases h
    exact ⟨_, _, .quiet rfl rfl rfl⟩
  | presenceTimeout nowMs =>
    cases h
    refine ⟨_, _, .quiet ?_ rfl rfl⟩
    simp only [SectionOutcome.quiet, presenceTimeoutLocked]
    split <;> rfl
  | stale nowMs =>
    cases h
    refine ⟨_, _, .quiet ?_ rfl rfl⟩
    simp only [SectionOutcome.quiet, staleLocked]
    split
    · rfl
    · split <;> rfl
  | grace nowMs =>
    cases h
    refine ⟨_, _, .quiet ?_ rfl rfl⟩
    rcases processRoomGrace_spec s nowMs with hg | ⟨deadline, -, -, hg⟩ <;>
      simp [SectionOutcome.quiet, hg]
  | permissionSet caller payload =>
    cases h
    refine ⟨_, _, .quiet ?_ ?_ rfl⟩
    · rcases permissionSetLocked_spec s store caller payload with ⟨-, hs⟩ | ⟨c, -, -, hs⟩
      · exact congrArg (·.drawing) hs
      · exact congrArg (·.drawing) hs
    · dsimp only
      split
      · exact publishEvents_quiet rfl
      · rfl
  | playbackCmd u pubkey payload =>
    cases h
    refine ⟨_, _, .quiet ?_ ?_ rfl⟩
    · rcases playbackLocked_spec s payload u pubkey env.clockMs with ⟨e, hr⟩ | ⟨-, hr⟩ <;>
        simp only [hr]
      rfl
    · dsimp only
      split
      · exact publishEvents_quiet rfl
      · rfl
  | strokeBegin envelope p u pubkey nowMs =>
    simp only [Section.run, strokeBeginLocked] at h
    split at h
    · rename_i hmay
      have hcall : (Section.strokeBegin envelope p u pubkey nowMs).drawingCall s = .elsewhere s :=
        if_neg (by simpa using hmay)
      cases h
      exact ⟨_, _, .quiet rfl rfl (by rw [hcall]; rfl)⟩
    · rename_i hmay
      have hcall : (Section.strokeBegin envelope p u pubkey nowMs).drawingCall s =
          .begin envelope p u pubkey nowMs := if_pos (by simpa using hmay)
      obtain ⟨o, d, ho, hd⟩ :=
        handleStrokeBegin_drawn env.crates.verifyStroke hb envelope p u pubkey nowMs
      rw [ho] at h
      cases h
      exact ⟨_, _, .of_drawn (hcall ▸ hd) rfl rfl⟩
  | strokePoint envelope p u =>
    obtain ⟨o, d, ho, hd⟩ := handleStrokePoint_drawn env.crates.verifyStroke hb envelope p u
    simp only [Section.run, ho] at h
    cases h
    exact ⟨_, _, .of_drawn hd rfl rfl⟩
  | strokeEnd envelope p u =>
    obtain ⟨o, d, ho, hd⟩ := handleStrokeEnd_drawn env.crates.verifyStroke hb envelope p u
    simp only [Section.run, ho] at h
    cases h
    exact ⟨_, _, .of_drawn hd rfl rfl⟩
  | strokeUndo envelope p u =>
    obtain ⟨o, d, ho, hd⟩ := handleStrokeUndo_drawn env.crates.verifyStroke hb envelope p u
    simp only [Section.run, ho] at h
    cases h
    exact ⟨_, _, .of_drawn hd rfl rfl⟩
  | strokeClear u =>
    obtain ⟨d, ho, hd⟩ := handleStrokeClear_drawn env.crates.verifyStroke s u
    cases h
    refine ⟨_, _, .of_drawn hd ?_ ?_⟩
    · simp only [drawn]
      rw [ho]
    · simp only [drawn]
      rw [ho]
  | manifestPublish u pubkey manifest =>
    simp only [Section.run] at h
    split at h <;> cases h <;> exact ⟨_, _, .quiet rfl rfl rfl⟩

/-! ### The life of a room -/

/-- The sections a room went through, each on the room the one before left and within `guard`. -/
inductive RoomRun (guard : Turn → Prop) (s₀ : RoomState) :
    List Turn → RoomState → Prop
  | start : RoomRun guard s₀ [] s₀
  | turn {turns : List Turn} (t : Turn) (r : RoomRun guard s₀ turns t.before)
      (hg : guard t) : RoomRun guard s₀ (turns ++ [t]) t.out.state

/-- The drawing items a room published. -/
def published (turns : List Turn) : List BroadcastItem := turns.flatMap Turn.items

@[simp] lemma published_append (turns turns' : List Turn) :
    published (turns ++ turns') = published turns ++ published turns' := List.flatMap_append

@[simp] lemma published_singleton (t : Turn) : published [t] = t.items := by
  simp [published]

variable {guard : Turn → Prop} {s₀ s : RoomState} {turns : List Turn}

lemma StrokeBookkeeping.Bookkept.numbered {d : StrokeBookkeeping} (h : d.Bookkept) (seq : ℕ) :
    Bookkept { d with seq } :=
  ⟨⟨h.ordered.nodup, h.ordered.mem_iff, h.ordered.length_le⟩,
    ⟨h.retained.count_eq, h.retained.count_le, h.retained.points_le, h.retained.dropped_empty⟩,
    h.not_committed_of_pending, h.tracked, h.user_le, h.room_le⟩

lemma RoomRun.mono {guard' : Turn → Prop} (r : RoomRun guard s₀ turns s)
    (h : ∀ t, guard t → guard' t) : RoomRun guard' s₀ turns s := by
  induction r with
  | start => exact .start
  | turn t r hg ih => exact .turn t ih (h t hg)

/-- A life without sections. -/
lemma RoomRun.eq_of_nil (r : RoomRun guard s₀ turns s) (h : turns = []) : s = s₀ := by
  cases r with
  | start => rfl
  | turn => simp at h

/-- A life that goes on. -/
lemma RoomRun.append {s' : RoomState} {later : List Turn} (r : RoomRun guard s₀ turns s)
    (r' : RoomRun guard s later s') : RoomRun guard s₀ (turns ++ later) s' := by
  induction r' with
  | start => simpa using r
  | turn t r' hg ih =>
    rw [← List.append_assoc]
    exact .turn t ih hg

/-- The bookkeeping invariant holds throughout. -/
lemma RoomRun.bookkept (r : RoomRun guard s₀ turns s) (h₀ : s₀.drawing.Bookkept) :
    s.drawing.Bookkept := by
  induction r with
  | start => exact h₀
  | turn t r hg ih =>
    obtain ⟨events, drawing, hd⟩ := Section.run_draws ih t.ran
    rw [hd.drawing_eq]
    exact (ih.step hd.drawn.step).numbered _

/-- The items of a life are numbered past its start, up to the room's sequence. -/
lemma RoomRun.numbered (r : RoomRun guard s₀ turns s) (h₀ : s₀.drawing.Bookkept) :
    s₀.drawing.seq ≤ s.drawing.seq ∧
      ∀ i ∈ published turns, s₀.drawing.seq < i.seq ∧ i.seq ≤ s.drawing.seq := by
  induction r with
  | start => exact ⟨le_rfl, fun i hi => by cases hi⟩
  | turn t r hg ih =>
    obtain ⟨events, drawing, hd⟩ := Section.run_draws (r.bookkept h₀) t.ran
    obtain ⟨hle, hitems⟩ := ih
    have hseq : t.out.state.drawing.seq = t.before.drawing.seq + events.length := by
      rw [hd.drawing_eq, hd.drawn.seq_eq]
    refine ⟨by omega, fun i hi => ?_⟩
    rw [published_append, published_singleton, Turn.items, hd.items_eq, List.mem_append] at hi
    rcases hi with hi | hi
    · have := hitems i hi
      omega
    · have := mem_numbered hi
      rw [hd.drawn.seq_eq] at this
      omega

end Locast.Rooms
