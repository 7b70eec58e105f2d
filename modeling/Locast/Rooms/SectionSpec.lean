import Locast.Rooms.RosterRefine

/-!
# What each write section does

One spec lemma for the write section of each handler, whatever the room looks like.  From them: a
section changes the room it runs on and nothing else, keeps the room's id, sends only on the room's
channel, and announces nobody by itself.  `Section.Answers` collects what its task may rely on about
its reply.
-/

namespace Locast.Rooms

open Locast.Lib Locast.Protocol

variable {cfg : RoomRegistryConfig} {s s' : RoomState}

/-! ### Membership -/

/-- **What a join does**: nothing, or a free user is admitted to an open room that is not full. -/
lemma joinLocked_spec {store store' : Store} {u : Uuid} {pubkey : PubKey} {displayName : String}
    {nowMs : ℤ} {reply : Except RoomError (RoomJoinedPayload × RoomEvent)}
    (h : joinLocked cfg s store u pubkey displayName nowMs = some (reply, s', store')) :
    (∃ e, reply = .error e ∧ s' = s) ∨
      (∃ joined, reply = .ok joined ∧ s.state ≠ .ended ∧ s.isMember u = false ∧
        s.liveCount < cfg.maxParticipants ∧ s' = s.withJoined
          (joinRecord u pubkey displayName nowMs) ∧
        joined.2 = .participantJoined (joinRecord u pubkey displayName nowMs).toPublic ∧
        store.exec (.addRoomParticipant s.id u pubkey displayName false nowMs Cap.chat) =
          (.ok (), store')) := by
  unfold joinLocked joinRefusal at h
  split at h
  · cases h
    exact .inl ⟨_, rfl, rfl⟩
  · rename_i hr
    split at hr
    · cases hr
    rename_i hopen
    split at hr
    · cases hr
    rename_i hfree
    split at hr
    · cases hr
    rename_i hfull
    split at h
    · cases h
      exact .inl ⟨_, rfl, rfl⟩
    · rename_i hexec
      simp only at h
      split at h
      · cases h
      · cases h
        refine .inr ⟨_, rfl, hopen, by simpa using hfree, by omega, rfl, rfl, hexec⟩

/-- The cases of a leave. -/
inductive LeaveCase (cfg : RoomRegistryConfig) (s : RoomState) (leaver : ParticipantRecord)
    (nowMs : ℤ) : Bool → LeaveOutcome → Prop
  | view (intentional : Bool) (hviewer : leaver.isHost = false) :
      LeaveCase cfg s leaver nowMs intentional (leaveViewing s leaver.userId nowMs)
  | close (intentional : Bool) (reason : String) (hhost : leaver.isHost = true)
      (hwhy : s.hostMigrationEnabled = false ∨
        (intentional = true ∧ electNewHost (s.mark leaver.userId .left nowMs) = none)) :
      LeaveCase cfg s leaver nowMs intentional (leaveClosing s leaver.userId reason nowMs)
  | migrate (newHost : Uuid) (migrated : RoomState) (hhost : leaver.isHost = true)
      (hon : s.hostMigrationEnabled = true)
      (helect : electNewHost (s.mark leaver.userId .left nowMs) = some (newHost, migrated)) :
      LeaveCase cfg s leaver nowMs true (leaveMigrating migrated leaver newHost nowMs)
  | wait (hhost : leaver.isHost = true) (hon : s.hostMigrationEnabled = true) :
      LeaveCase cfg s leaver nowMs false (leaveWaiting cfg s leaver.userId nowMs)

/-- **What a leave does.** -/
lemma leaveLocked_spec {u : Uuid} {intentional : Bool} {nowMs : ℤ} {out : LeaveOutcome}
    (h : leaveLocked cfg s u intentional nowMs = some out) :
    s.state ≠ .ended ∧ ∃ leaver, s.liveRecord u = some leaver ∧ leaver.userId = u ∧
      LeaveCase cfg s leaver nowMs intentional out := by
  unfold leaveLocked at h
  split at h
  · cases h
  rename_i hopen
  refine ⟨hopen, ?_⟩
  split at h
  · cases h
  rename_i leaver hl
  have hu := (RoomState.liveRecord_spec hl).2.1
  subst hu
  refine ⟨leaver, hl, rfl, ?_⟩
  split at h
  · rename_i hv
    cases h
    exact .view _ (by simpa using hv)
  rename_i hv
  have hhost : leaver.isHost = true := by simpa using hv
  split at h
  · rename_i hm
    cases h
    exact .close _ _ hhost (.inl (by simpa using hm))
  rename_i hm
  have hon : s.hostMigrationEnabled = true := by simpa using hm
  split at h
  · rename_i hi
    subst hi
    split at h
    · rename_i he
      cases h
      exact .close _ _ hhost (.inr ⟨rfl, he⟩)
    · rename_i v m he
      cases h
      exact .migrate v m hhost hon he
  · rename_i hi
    cases h
    have hi : intentional = false := by simpa using hi
    subst hi
    exact .wait hhost hon

/-! ### Commands -/

/-- The live record of `u` with a new capability set. -/
def RoomState.grant (s : RoomState) (u : Uuid) (capSet : BitVec 32) : RoomState :=
  let participants := updateFirst (fun p => p.userId == u && p.status ≠ .left)
    (fun p => { p with capSet }) s.participants
  { s with participants }

/-- `PERMISSION_SET` changes one record's capabilities, if anything. -/
lemma permissionSetLocked_spec (s : RoomState) (store : Store) (caller : Uuid)
    (payload : PermissionSetPayload) :
    ((∃ e, (permissionSetLocked s store caller payload).1 = .error e) ∧
        (permissionSetLocked s store caller payload).2.1 = s) ∨
      ∃ capSet, (permissionSetLocked s store caller payload).1 =
          .ok { targetUserId := payload.targetUserId, capSet } ∧
        s.isPresentHost caller = true ∧
        (permissionSetLocked s store caller payload).2.1 = s.grant payload.targetUserId capSet := by
  unfold permissionSetLocked
  split
  · exact .inl ⟨⟨_, rfl⟩, rfl⟩
  rename_i hh
  split
  · exact .inl ⟨⟨_, rfl⟩, rfl⟩
  · simp only
    split
    · exact .inl ⟨⟨_, rfl⟩, rfl⟩
    · exact .inr ⟨_, rfl, by simpa using hh, rfl⟩

/-- An accepted command leaves the room running. -/
lemma accepts_ne_ended {st : RoomLifecycle} {a : PlaybackAction} (h : st.accepts a = true) :
    st ≠ .ended ∧ st.after a ≠ .ended := by
  cases st <;> cases a <;> simp_all [RoomLifecycle.accepts, RoomLifecycle.after]

/-- The checks an accepted command passed. -/
lemma playbackRefusal_eq_none {payload : PlaybackCommandPayload} {u : Uuid} {pubkey : PubKey}
    (h : playbackRefusal s payload u pubkey = none) :
    s.state ≠ .ended ∧ (∃ caller, s.liveRecord u = some caller ∧ caller.pubkey = pubkey ∧
        participantCan caller .playback .issuePlaybackCommand = true) ∧
      s.state.accepts payload.action = true ∧
      payload.monotonicSeq = min (s.lastAcked u + 1) u64Max ∧
      s.playback.serverSeq < u64Max := by
  unfold playbackRefusal at h
  split at h
  · cases h
  rename_i hopen
  split at h
  · cases h
  rename_i caller hc
  split at h
  · cases h
  rename_i hcan
  simp only at h
  split at h
  · cases h
  rename_i hacc
  split at h
  · cases h
  rename_i hlo
  split at h
  · cases h
  rename_i hhi
  split at h
  · cases h
  rename_i hseq
  simp only [ne_eq, Bool.or_eq_true, Bool.not_eq_true', not_or, decide_eq_true_eq, not_not,
    Bool.not_eq_false] at hcan
  exact ⟨hopen, ⟨caller, hc, hcan.1, hcan.2⟩, by simpa using hacc, by omega, by omega⟩

/-- **What a playback command does**: nothing, or the next step of the room's playback. -/
lemma playbackLocked_spec (s : RoomState) (payload : PlaybackCommandPayload) (u : Uuid)
    (pubkey : PubKey) (clockMs : ℤ) :
    (∃ e, playbackLocked s payload u pubkey clockMs = (.error e, s)) ∨
      (playbackRefusal s payload u pubkey = none ∧
        playbackLocked s payload u pubkey clockMs =
          (.ok (acceptedEvent s payload u clockMs),
            s.accept (acceptedEvent s payload u clockMs))) := by
  unfold playbackLocked
  split
  · exact .inl ⟨_, rfl⟩
  · rename_i h
    exact .inr ⟨h, rfl⟩

/-- **What a manifest does under the lock**: nothing to the room, and what it publishes comes from
the host and bears its name. -/
lemma manifestPublishLocked_spec {crates : Crates} {store : Store} {u : Uuid} {pubkey : PubKey}
    {manifest : MediaManifest} {clockMs : ℤ} {c : CachedManifest}
    (h : (manifestPublishLocked crates s store u pubkey manifest clockMs).1 = .ok c) :
    s.state ≠ .ended ∧ s.isPublishingHost u pubkey = true ∧ c.hostUserId = u := by
  unfold manifestPublishLocked at h
  split at h
  · cases h
  rename_i hopen
  split at h
  · cases h
  rename_i hhost
  refine ⟨hopen, by simpa using hhost, ?_⟩
  split at h
  · cases h
  split at h
  · cases h
  dsimp only at h
  split at h
  · cases h
  · cases h
    rfl

/-! ### Payloads -/

/-- The membership announcement a payload makes. -/
def WirePayload.announcement : WirePayload → Option Announcement
  | .participantJoined p => some (.joined p.userId)
  | .participantLeft p => some (.left p.userId)
  | _ => none

/-- The accepted command a payload carries. -/
def WirePayload.playback : WirePayload → Option PlaybackAcceptedEvent
  | .playbackCmd e => some e
  | _ => none

/-- The payloads that the connection's task publishes, after the lock. -/
def WirePayload.isRelayed : WirePayload → Bool
  | .positionReport _ | .laserMove _ | .laserOff | .chatMessage _ => true
  | _ => false

/-- The payloads that tell of a change among the participants or of the end of the room. -/
def WirePayload.isRoster : WirePayload → Bool
  | .participantJoined _ | .participantLeft _ | .hostDisconnected _ | .hostReconnected _
  | .hostMigrated _ | .roomClosed _ => true
  | _ => false

lemma WirePayload.playback_of_isRoster {p : WirePayload} (h : p.isRoster = true) :
    p.playback = none := by
  cases p <;> first | rfl | cases h

/-- The payload of a `ROOM_CLOSED`. -/
def WirePayload.isClosed : WirePayload → Bool
  | .roomClosed _ => true
  | _ => false

@[simp] lemma RoomEvent.payload_announcement (e : RoomEvent) :
    e.payload.announcement = e.announcement := by cases e <;> rfl

@[simp] lemma eventToBroadcastItem_payload (e : RoomEvent) (roomId : Uuid) (o : Option Uuid) :
    (eventToBroadcastItem e roomId o).payload = e.payload := rfl

/-- The events of the drawing handlers. -/
def RoomEvent.isDrawing : RoomEvent → Bool
  | .strokeBegin .. | .strokePoint .. | .strokeEnd .. | .strokeUndo .. | .strokeClear .. => true
  | _ => false

lemma RoomEvent.isDrawing_quiet {e : RoomEvent} (h : e.isDrawing = true) :
    e.announcement = none ∧ e.payload.playback = none := by
  cases e <;> first | exact ⟨rfl, rfl⟩ | cases h

/-- Where an event goes and what it carries: itself, or the pieces of its manifest. -/
lemma publishEvent_spec (split : SplitForWire) (roomId : Uuid) (seq : ℕ) (e : RoomEvent) :
    (publishEvent split roomId seq e).1 = e.ownRoom.getD roomId ∧
      ((∃ item, (publishEvent split roomId seq e).2 = [item] ∧ item.payload = e.payload) ∨
        (∃ id m v t, e = .manifestPublished id m v t) ∧
          ∀ item ∈ (publishEvent split roomId seq e).2, ∃ part,
            item.payload = .manifestPart part) := by
  cases e with
  | manifestPublished id m v t =>
    simp only [publishEvent]
    split
    · refine ⟨rfl, .inr ⟨⟨id, m, v, t, rfl⟩, fun item hi => ?_⟩⟩
      obtain ⟨part, -, rfl⟩ := List.mem_map.1 hi
      exact ⟨part, rfl⟩
    · exact ⟨rfl, .inl ⟨_, rfl, rfl⟩⟩
  | _ => exact ⟨rfl, .inl ⟨_, rfl, rfl⟩⟩

/-- An event that announces nobody and carries no command does neither on the wire. -/
lemma publishEvent_quiet {split : SplitForWire} {roomId : Uuid} {seq : ℕ} {e : RoomEvent}
    (ha : e.announcement = none) (hp : e.payload.playback = none) :
    ∀ item ∈ (publishEvent split roomId seq e).2,
      item.payload.announcement = none ∧ item.payload.playback = none := by
  intro item hi
  rcases (publishEvent_spec split roomId seq e).2 with ⟨it, h, hpay⟩ | ⟨-, h⟩
  · rw [h, List.mem_singleton] at hi
    rw [hi, hpay, RoomEvent.payload_announcement]
    exact ⟨ha, hp⟩
  · obtain ⟨part, hpart⟩ := h item hi
    rw [hpart]
    exact ⟨rfl, rfl⟩

lemma mem_publishEvents {split : SplitForWire} {roomId : Uuid} {events : List RoomEvent}
    {i : Uuid × BroadcastItem} (hi : i ∈ publishEvents split roomId events) :
    ∃ e ∈ events, (publishEvent split roomId 0 e).1 = i.1 ∧
      i.2 ∈ (publishEvent split roomId 0 e).2 := by
  obtain ⟨e, he, hi⟩ := List.mem_flatMap.1 hi
  obtain ⟨item, hitem, rfl⟩ := List.mem_map.1 hi
  exact ⟨e, he, rfl, hitem⟩

/-! ### The drawing handlers -/

/-- What a drawing handler does: nothing, or, when `may` holds, it changes the drawing and asks for
drawing events on `roomId`. -/
def Draws (may : Prop) (s : RoomState) (roomId : Uuid) (out : RoomDispatchOutcome × RoomState) :
    Prop :=
  (out.2 = s ∧ out.1.events = []) ∨
    (may ∧ out.1.toCaller = [] ∧ (∃ drawing, out.2 = { s with drawing }) ∧
      ∀ e ∈ out.1.events, e.isDrawing = true ∧ e.ownRoom = some roomId)

section Drawing

variable {u : Uuid} {envelope : Envelope} {out : RoomDispatchOutcome × RoomState}

lemma strokeBeginLocked_draws {verify : VerifyStroke} {p : Except String StrokeBeginPayload}
    {pubkey : PubKey} {nowMs : ℤ}
    (h : strokeBeginLocked verify envelope p s u pubkey nowMs = some out) :
    Draws (s.presentCan u .drawing .drawBegin = true) s (envelope.roomId.getD s.id) out := by
  unfold strokeBeginLocked handleStrokeBegin at h
  split at h
  · cases h
    exact .inl ⟨rfl, rfl⟩
  rename_i hmay
  split at h
  · cases h
    exact .inl ⟨rfl, rfl⟩
  split at h
  · cases h
    exact .inl ⟨rfl, rfl⟩
  · obtain ⟨⟨d, fin⟩, -, h⟩ := Option.bind_eq_some_iff.1 h
    obtain ⟨d', -, h⟩ := Option.bind_eq_some_iff.1 h
    cases h
    refine .inr ⟨by simpa using hmay, rfl, ⟨d', rfl⟩, fun e he => ?_⟩
    rcases List.mem_append.1 he with he | he
    · obtain ⟨stroke, -, rfl⟩ := List.mem_map.1 he
      exact ⟨rfl, rfl⟩
    · rw [List.mem_singleton.1 he]
      exact ⟨rfl, rfl⟩

lemma handleStrokePoint_draws {p : Except String StrokePointPayload}
    (h : handleStrokePoint envelope p s u = some out) :
    Draws True s (envelope.roomId.getD s.id) out := by
  unfold handleStrokePoint at h
  split at h
  · cases h
    exact .inl ⟨rfl, rfl⟩
  split at h
  · cases h
    exact .inl ⟨rfl, rfl⟩
  split at h
  · cases h
    exact .inl ⟨rfl, rfl⟩
  split at h
  · cases h
    exact .inl ⟨rfl, rfl⟩
  split at h
  · cases h
    exact .inl ⟨rfl, rfl⟩
  · obtain ⟨d, -, h⟩ := Option.bind_eq_some_iff.1 h
    cases h
    refine .inr ⟨trivial, rfl, ⟨d, rfl⟩, fun e he => ?_⟩
    rw [List.mem_singleton.1 he]
    exact ⟨rfl, rfl⟩

lemma handleStrokeEnd_draws {p : Except String StrokeEndPayload}
    (h : handleStrokeEnd envelope p s u = some out) :
    Draws True s (envelope.roomId.getD s.id) out := by
  unfold handleStrokeEnd at h
  split at h
  · cases h
    exact .inl ⟨rfl, rfl⟩
  split at h
  · cases h
    exact .inl ⟨rfl, rfl⟩
  split at h
  · cases h
    exact .inl ⟨rfl, rfl⟩
  simp only at h
  split at h
  · obtain ⟨d, -, h⟩ := Option.bind_eq_some_iff.1 h
    cases h
    exact .inr ⟨trivial, rfl, ⟨d, rfl⟩, fun e he => absurd he List.not_mem_nil⟩
  · obtain ⟨⟨d, ev⟩, -, h⟩ := Option.bind_eq_some_iff.1 h
    cases h
    refine .inr ⟨trivial, rfl, ⟨_, rfl⟩, fun e he => ?_⟩
    rw [List.mem_singleton.1 he]
    exact ⟨rfl, rfl⟩

/-- The caller may undo the stroke the payload names. -/
def MayUndo (s : RoomState) (u : Uuid) (p : Except String StrokeUndoPayload) : Prop :=
  ∃ payload owner, p = .ok payload ∧ s.drawing.ownerOf payload.strokeId = some owner ∧
    mayUndo s u owner = true

lemma handleStrokeUndo_draws {p : Except String StrokeUndoPayload}
    (h : handleStrokeUndo envelope p s u = some out) : Draws (MayUndo s u p) s s.id out := by
  unfold handleStrokeUndo at h
  split at h
  · cases h
    exact .inl ⟨rfl, rfl⟩
  rename_i payload
  split at h
  · cases h
    exact .inl ⟨rfl, rfl⟩
  rename_i owner ho
  split at h
  · cases h
    exact .inl ⟨rfl, rfl⟩
  · rename_i hmay
    obtain ⟨⟨b, d⟩, -, h⟩ := Option.bind_eq_some_iff.1 h
    cases h
    refine .inr ⟨⟨payload, owner, rfl, ho, by simpa using hmay⟩, rfl, ⟨d, rfl⟩, fun e he => ?_⟩
    rw [List.mem_singleton.1 he]
    exact ⟨rfl, rfl⟩

lemma handleStrokeClear_draws (s : RoomState) (u : Uuid) :
    Draws (s.presentCan u .drawing .clearAll = true) s s.id (handleStrokeClear s u) := by
  unfold handleStrokeClear
  split
  · exact .inl ⟨rfl, rfl⟩
  · rename_i hmay
    refine .inr ⟨by simpa using hmay, rfl, ⟨_, rfl⟩, fun e he => ?_⟩
    rw [List.mem_singleton.1 he]
    exact ⟨rfl, rfl⟩

lemma mem_publishDrawingEventsLocked {split : SplitForWire} {roomId : Uuid}
    {events : List RoomEvent} {drawing : StrokeBookkeeping} {i : Uuid × BroadcastItem}
    (hi : i ∈ (publishDrawingEventsLocked split roomId events drawing).1) :
    ∃ e ∈ events, ∃ seq, (publishEvent split roomId seq e).1 = i.1 ∧
      i.2 ∈ (publishEvent split roomId seq e).2 := by
  induction events generalizing drawing with
  | nil => exact absurd hi List.not_mem_nil
  | cons e events ih =>
    simp only [publishDrawingEventsLocked] at hi
    rcases List.mem_append.1 hi with hi | hi
    · obtain ⟨item, hitem, rfl⟩ := List.mem_map.1 hi
      exact ⟨e, List.mem_cons_self, _, rfl, hitem⟩
    · obtain ⟨e', he', h⟩ := ih hi
      exact ⟨e', List.mem_cons_of_mem _ he', h⟩

/-- The items of a drawing section: drawing events on the handler's room. -/
lemma Draws.sent {may : Prop} {roomId : Uuid} (h : Draws may s roomId out) (split : SplitForWire)
    (store : Store) : ∀ i ∈ (drawn split s.id store out).sent,
      may ∧ i.1 = roomId ∧ i.2.payload.announcement = none ∧ i.2.payload.playback = none := by
  intro i hi
  obtain ⟨e, he, seq, hroom, hitem⟩ := mem_publishDrawingEventsLocked hi
  rcases h with ⟨-, hnil⟩ | ⟨hmay, -, -, hev⟩
  · rw [hnil] at he
    exact absurd he List.not_mem_nil
  · obtain ⟨hd, hown⟩ := hev e he
    have hq := publishEvent_quiet (RoomEvent.isDrawing_quiet hd).1
      (RoomEvent.isDrawing_quiet hd).2 _ hitem
    refine ⟨hmay, ?_, hq⟩
    rw [← hroom, (publishEvent_spec _ _ _ _).1, hown, Option.getD_some]

lemma Draws.state {may : Prop} {roomId : Uuid} (h : Draws may s roomId out) (split : SplitForWire)
    (store : Store) : ∃ drawing, (drawn split s.id store out).state = { s with drawing } := by
  rcases h with ⟨hs, hnil⟩ | ⟨-, -, ⟨d, hd⟩, -⟩
  · exact ⟨s.drawing, by rw [drawn, hnil, publishDrawingEventsLocked, hs]⟩
  · exact ⟨_, by rw [drawn, hd]⟩

/-- A handler that refuses to draw leaves the room as it was and sends nothing. -/
lemma Draws.refused {may : Prop} {roomId : Uuid} (h : Draws may s roomId out) (split : SplitForWire)
    (store : Store) (hno : ¬may ∨ out.1.toCaller ≠ []) :
    (drawn split s.id store out).state = s ∧ (drawn split s.id store out).sent = [] := by
  rcases h with ⟨hs, hnil⟩ | ⟨hmay, hto, -, -⟩
  · simp [drawn, hnil, publishDrawingEventsLocked, hs]
  · rcases hno with hno | hno
    · exact absurd hmay hno
    · exact absurd hto hno

end Drawing

/-! ### Every section -/

/-- The room on whose channel a section's items go. -/
def Section.target (roomId : Uuid) : Section → Uuid
  | .strokeBegin envelope .. | .strokePoint envelope .. | .strokeEnd envelope .. =>
    envelope.roomId.getD roomId
  | _ => roomId

/-- The command a section accepted. -/
def Section.accepted : (sec : Section) → sec.Reply → Option PlaybackAcceptedEvent
  | .playbackCmd .., .ok e => some e
  | _, _ => none

/-- The room ended in this section, and its task knows. -/
def Section.ends : (sec : Section) → sec.Reply → Bool
  | .leave .., some reply => reply.ended
  | .grace _, some event => match event with
    | .roomClosed _ => true
    | _ => false
  | _, _ => false

/-- What a task may rely on about the reply of its section. -/
def Section.Answers : (sec : Section) → sec.Reply → Prop
  | .join u .., .ok out => out.2.announcement = some (.joined u) ∧ out.2.payload.playback = none
  | .leave .., some reply => ∀ e ∈ reply.events, e.payload.isRoster = true
  | .grace _, some event => event.announcement = none ∧ event.payload.isRoster = true
  | .strokeBegin .., r | .strokePoint .., r | .strokeEnd .., r | .strokeUndo .., r
  | .strokeClear .., r => (r : RoomDispatchOutcome).events = []
  | .manifestPublish u .., .ok c => c.hostUserId = u
  | _, _ => True

lemma LeaveCase.outcome {leaver : ParticipantRecord} {nowMs : ℤ} {intentional : Bool}
    {out : LeaveOutcome} (h : LeaveCase cfg s leaver nowMs intentional out) :
    out.state.id = s.id ∧ ∀ e ∈ out.events, e.payload.isRoster = true := by
  have helect {t : RoomState} {v : Uuid} {m : RoomState} (he : electNewHost t = some (v, m)) :
      m.id = t.id := by
    obtain ⟨-, -, -, -, rfl⟩ := electNewHost_spec he
    rfl
  cases h with
  | view => exact ⟨rfl, by simp [leaveViewing, leftEvent, RoomEvent.payload, WirePayload.isRoster]⟩
  | close =>
    exact ⟨rfl, by simp [leaveClosing, leftEvent, RoomEvent.payload, WirePayload.isRoster]⟩
  | migrate v m _ _ he =>
    refine ⟨(helect he).trans rfl, ?_⟩
    simp [leaveMigrating, leftEvent, RoomEvent.payload, WirePayload.isRoster]
  | wait =>
    refine ⟨?_, by simp [leaveWaiting, RoomEvent.payload, WirePayload.isRoster]⟩
    simp only [leaveWaiting]
    split
    · cases he : electNewHost { s.mark leaver.userId .reconnecting nowMs with
          hostDisconnectDeadlineMs := some (nowMs + cfg.hostDisconnectGraceMs) } with
      | none => rfl
      | some e =>
        obtain ⟨v, m⟩ := e
        exact (helect he).trans rfl
    · rfl

/-- What the grace timer does: nothing, or the room ends and its closing is announced. -/
lemma processRoomGrace_spec (s : RoomState) (nowMs : ℤ) :
    processRoomGrace s nowMs = (none, s) ∨
      ∃ deadline, s.hostDisconnectDeadlineMs = some deadline ∧ deadline ≤ nowMs ∧
        processRoomGrace s nowMs =
          (some (.roomClosed "host_disconnected_no_migration"), { s with state := .ended }) := by
  unfold processRoomGrace
  split
  · exact .inl rfl
  rename_i deadline hd
  split
  · exact .inl rfl
  · refine .inr ⟨deadline, hd, by omega, ?_⟩
    simp only [tryMigrateHost, ite_self]

/-- What a section keeps of its room, what it sends, and what its task may rely on. -/
structure Framed (sec : Section) (s : RoomState) (out : SectionOutcome sec.Reply) : Prop where
  id : out.state.id = s.id
  ended : s.state = .ended → out.state.state = .ended
  ends : sec.ends out.reply = true → out.state.state = .ended
  answers : sec.Answers out.reply
  sent : ∀ i ∈ out.sent, i.1 = sec.target s.id ∧ i.2.payload.announcement = none
  playback : out.sent.filterMap (·.2.payload.playback) = (sec.accepted out.reply).toList

/-- A section with nothing to send. -/
lemma Framed.quiet {sec : Section} {reply : sec.Reply} {store : Store} (hid : s'.id = s.id)
    (hended : s.state = .ended → s'.state = .ended)
    (hends : sec.ends reply = true → s'.state = .ended) (hanswers : sec.Answers reply)
    (haccepted : sec.accepted reply = none) : Framed sec s (.quiet reply s' store) where
  id := hid
  ended := hended
  ends := hends
  answers := hanswers
  sent i hi := absurd hi List.not_mem_nil
  playback := by
    rw [show SectionOutcome.sent (.quiet reply s' store) = [] from rfl,
      show SectionOutcome.reply (.quiet reply s' store) = reply from rfl, haccepted]
    rfl

/-- A drawing section. -/
lemma Draws.framed {may : Prop} {roomId : Uuid} {out : RoomDispatchOutcome × RoomState}
    (h : Draws may s roomId out) (split : SplitForWire) (store : Store) :
    (drawn split s.id store out).state.id = s.id ∧
      (s.state = .ended → (drawn split s.id store out).state.state = .ended) ∧
      (∀ i ∈ (drawn split s.id store out).sent,
        i.1 = roomId ∧ i.2.payload.announcement = none) ∧
      (drawn split s.id store out).sent.filterMap (·.2.payload.playback) = [] := by
  obtain ⟨drawing, hd⟩ := h.state split store
  have hs := h.sent split store
  rw [hd]
  refine ⟨rfl, id, fun i hi => ⟨(hs i hi).2.1, (hs i hi).2.2.1⟩, ?_⟩
  rw [List.filterMap_eq_nil_iff]
  exact fun i hi => (hs i hi).2.2.2

-- The equations of `Section.run` are derived here, once, before the proofs that unfold it.
attribute [local simp] Section.run in
/-- **Every write section is framed.** -/
theorem Section.run_framed {env : SectionEnv} {store : Store} {sec : Section}
    {out : SectionOutcome sec.Reply} (h : sec.run env store s = some out) : Framed sec s out := by
  cases sec with
  | join u pubkey displayName nowMs =>
    obtain ⟨⟨reply, s', store'⟩, hj, rfl⟩ := Option.map_eq_some_iff.1 h
    rcases joinLocked_spec hj with ⟨e, rfl, rfl⟩ | ⟨joined, rfl, -, -, -, rfl, he, -⟩
    · exact .quiet rfl id (fun h => absurd h Bool.false_ne_true) trivial rfl
    · refine .quiet rfl id (fun h => absurd h Bool.false_ne_true) ?_ rfl
      simp only [Section.Answers]
      rw [he]
      exact ⟨rfl, rfl⟩
  | leave u intentional nowMs =>
    simp only [Section.run] at h
    split at h
    · cases h
      exact .quiet rfl id (fun h => absurd h Bool.false_ne_true) trivial rfl
    · rename_i out' hl
      cases h
      obtain ⟨hopen, leaver, -, -, hcase⟩ := leaveLocked_spec hl
      exact .quiet hcase.outcome.1 (fun h => absurd h hopen)
        (fun h => by simpa [Section.ends] using h) hcase.outcome.2 rfl
  | connectionLost u nowMs =>
    cases h
    refine .quiet ?_ (fun hs => ?_) (fun h => absurd h Bool.false_ne_true) trivial rfl
    · unfold connectionLostLocked
      split <;> rfl
    · rw [connectionLostLocked, if_pos hs]
      exact hs
  | presenceTimeout nowMs =>
    cases h
    refine .quiet ?_ (fun hs => ?_) (fun h => absurd h Bool.false_ne_true) trivial rfl
    · unfold presenceTimeoutLocked
      split <;> rfl
    · rw [presenceTimeoutLocked, if_pos hs]
      exact hs
  | stale nowMs =>
    cases h
    refine .quiet ?_ (fun hs => ?_) (fun h => absurd h Bool.false_ne_true) trivial rfl
    · unfold staleLocked
      split
      · rfl
      · split <;> rfl
    · rw [staleLocked, if_pos hs]
      exact hs
  | grace nowMs =>
    cases h
    rcases processRoomGrace_spec s nowMs with hg | ⟨deadline, -, -, hg⟩
    · simp only [hg]
      exact .quiet rfl id (fun h => absurd h Bool.false_ne_true) trivial rfl
    · simp only [hg]
      exact .quiet rfl (fun _ => rfl) (fun _ => rfl) ⟨rfl, rfl⟩ rfl
  | rejoinHost u pubkey nowMs =>
    cases h
    exact .quiet rfl id (fun h => absurd h Bool.false_ne_true) trivial rfl
  | rejoin u pubkey nowMs =>
    cases h
    exact .quiet rfl id (fun h => absurd h Bool.false_ne_true) trivial rfl
  | touch u nowMs =>
    cases h
    exact .quiet rfl id (fun h => absurd h Bool.false_ne_true) trivial rfl
  | permissionSet caller payload =>
    cases h
    rcases permissionSetLocked_spec s store caller payload with ⟨⟨e, hr⟩, hs⟩ | ⟨c, hr, -, hs⟩
    · refine ⟨by rw [hs], by rw [hs]; exact id, fun h => absurd h Bool.false_ne_true,
        trivial, ?_, ?_⟩
      · simp [hr]
      · simp [hr, Section.accepted]
    · refine ⟨by rw [hs]; rfl, by rw [hs]; exact id, fun h => absurd h Bool.false_ne_true, trivial,
        ?_, ?_⟩
      · simp [hr, publishEvents, publishEvent, RoomEvent.ownRoom, Section.target,
          eventToBroadcastItem, RoomEvent.payload, WirePayload.announcement]
      · simp [hr, publishEvents, publishEvent, eventToBroadcastItem, RoomEvent.payload,
          WirePayload.playback, Section.accepted]
  | playbackCmd u pubkey payload =>
    cases h
    rcases playbackLocked_spec s payload u pubkey env.clockMs with ⟨e, hr⟩ | ⟨hn, hr⟩
    · simp only [hr]
      exact ⟨rfl, id, fun h => absurd h Bool.false_ne_true, trivial,
        fun i hi => absurd hi List.not_mem_nil, rfl⟩
    · simp only [hr]
      refine ⟨rfl, fun h => absurd h (playbackRefusal_eq_none hn).1,
        fun h => absurd h Bool.false_ne_true, trivial, ?_, ?_⟩
      · simp [publishEvents, publishEvent, RoomEvent.ownRoom, Section.target,
          eventToBroadcastItem, RoomEvent.payload, WirePayload.announcement]
      · simp [publishEvents, publishEvent, eventToBroadcastItem, RoomEvent.payload,
          WirePayload.playback, Section.accepted]
  | strokeBegin envelope p u pubkey nowMs =>
    obtain ⟨out', ho, rfl⟩ := Option.map_eq_some_iff.1 h
    obtain ⟨hid, he, hsent, hp⟩ :=
      (strokeBeginLocked_draws ho).framed env.crates.splitPublished store
    exact ⟨hid, he, fun h => absurd h Bool.false_ne_true, rfl, hsent, hp⟩
  | strokePoint envelope p u =>
    obtain ⟨out', ho, rfl⟩ := Option.map_eq_some_iff.1 h
    obtain ⟨hid, he, hsent, hp⟩ :=
      (handleStrokePoint_draws ho).framed env.crates.splitPublished store
    exact ⟨hid, he, fun h => absurd h Bool.false_ne_true, rfl, hsent, hp⟩
  | strokeEnd envelope p u =>
    obtain ⟨out', ho, rfl⟩ := Option.map_eq_some_iff.1 h
    obtain ⟨hid, he, hsent, hp⟩ := (handleStrokeEnd_draws ho).framed env.crates.splitPublished store
    exact ⟨hid, he, fun h => absurd h Bool.false_ne_true, rfl, hsent, hp⟩
  | strokeUndo envelope p u =>
    obtain ⟨out', ho, rfl⟩ := Option.map_eq_some_iff.1 h
    obtain ⟨hid, he, hsent, hp⟩ :=
      (handleStrokeUndo_draws ho).framed env.crates.splitPublished store
    exact ⟨hid, he, fun h => absurd h Bool.false_ne_true, rfl, hsent, hp⟩
  | strokeClear u =>
    cases h
    obtain ⟨hid, he, hsent, hp⟩ :=
      (handleStrokeClear_draws s u).framed env.crates.splitPublished store
    exact ⟨hid, he, fun h => absurd h Bool.false_ne_true, rfl, hsent, hp⟩
  | manifestPublish u pubkey manifest =>
    simp only [Section.run] at h
    split at h
    · rename_i c hc
      cases h
      exact ⟨rfl, id, fun h => absurd h Bool.false_ne_true, (manifestPublishLocked_spec hc).2.2,
        fun i hi => absurd hi List.not_mem_nil, rfl⟩
    · cases h
      exact .quiet rfl id (fun h => absurd h Bool.false_ne_true) trivial rfl

end Locast.Rooms
