import Locast.Rooms.HostCommands
import Locast.Rooms.Playback

/-!
# Write sections

A `Section` is everything one task does between taking a room's write lock and releasing it, store
calls and publishes under the lock included.  Whatever changes a room is one of these.  An accepted
`MANIFEST_PUBLISH` is the exception: its section ends with its store calls, and the lock is kept
while the manifest is cached and published, since the cache is read without it.
-/

namespace Locast.Rooms

open Locast.Lib Locast.Protocol

/-- The write sections of the server, with what the task brings along. -/
inductive Section where
  | join (userId : Uuid) (pubkey : PubKey) (displayName : String) (nowMs : ℤ)
  | leave (userId : Uuid) (intentional : Bool) (nowMs : ℤ)
  | connectionLost (userId : Uuid) (nowMs : ℤ)
  | rejoinHost (userId : Uuid) (pubkey : PubKey) (nowMs : ℤ)
  | rejoin (userId : Uuid) (pubkey : PubKey) (nowMs : ℤ)
  | touch (userId : Uuid) (nowMs : ℤ)
  | presenceTimeout (nowMs : ℤ)
  | stale (nowMs : ℤ)
  | grace (nowMs : ℤ)
  | permissionSet (caller : Uuid) (payload : PermissionSetPayload)
  | playbackCmd (userId : Uuid) (pubkey : PubKey) (payload : PlaybackCommandPayload)
  | strokeBegin (envelope : Envelope) (p : Except String StrokeBeginPayload) (userId : Uuid)
      (pubkey : PubKey) (nowMs : ℤ)
  | strokePoint (envelope : Envelope) (p : Except String StrokePointPayload) (userId : Uuid)
  | strokeEnd (envelope : Envelope) (p : Except String StrokeEndPayload) (userId : Uuid)
  | strokeUndo (envelope : Envelope) (p : Except String StrokeUndoPayload) (userId : Uuid)
  | strokeClear (userId : Uuid)
  | manifestPublish (userId : Uuid) (pubkey : PubKey) (manifest : MediaManifest)

/-- The announcements of a leave, and whether the room ended. -/
structure LeaveReply where
  events : List RoomEvent
  ended : Bool

/-- What a section hands back to its task. -/
def Section.Reply : Section → Type
  | join .. => Except RoomError (RoomJoinedPayload × RoomEvent)
  | leave .. => Option LeaveReply
  | connectionLost .. | rejoinHost .. | rejoin .. => Unit
  | touch .. => Bool
  | presenceTimeout .. | stale .. => List Uuid
  | grace .. => Option RoomEvent
  | permissionSet .. => Except RoomError CapabilityUpdated
  | playbackCmd .. => Except PlaybackError PlaybackAcceptedEvent
  | strokeBegin .. | strokePoint .. | strokeEnd .. | strokeUndo .. | strokeClear .. =>
    RoomDispatchOutcome
  | manifestPublish .. => Except RoomError CachedManifest

/-- What a section reads besides its room and the store. -/
structure SectionEnv where
  cfg : RoomRegistryConfig
  crates : Crates
  clockMs : ℤ

/-- The result of a section: its reply, the room and the store after it, the items it published in
order, each with the room whose channel it went to, and whether its task keeps the room's lock. -/
structure SectionOutcome (ρ : Type) where
  reply : ρ
  state : RoomState
  store : Store
  sent : List (Uuid × BroadcastItem)
  held : Bool

/-- A section that publishes nothing. -/
def SectionOutcome.quiet {ρ : Type} (reply : ρ) (state : RoomState) (store : Store) :
    SectionOutcome ρ where
  reply := reply
  state := state
  store := store
  sent := []
  held := false

/-- `publish_events` under the lock of `roomId`. -/
def publishEvents (split : SplitForWire) (roomId : Uuid) (events : List RoomEvent) :
    List (Uuid × BroadcastItem) :=
  events.flatMap fun e =>
    let out := publishEvent split roomId 0 e
    out.2.map fun item => (out.1, item)

/-- `publish_drawing_events_locked`: every event takes the room's next drawing sequence number. -/
def publishDrawingEventsLocked (split : SplitForWire) (roomId : Uuid) :
    List RoomEvent → StrokeBookkeeping → List (Uuid × BroadcastItem) × StrokeBookkeeping
  | [], drawing => ([], drawing)
  | e :: events, drawing =>
    let next := drawing.nextSeq
    let out := publishEvent split roomId next.1 e
    let rest := publishDrawingEventsLocked split roomId events next.2
    (out.2.map (fun item => (out.1, item)) ++ rest.1, rest.2)

/-- The end of every drawing section: the events go out under the lock and leave the outcome. -/
def drawn (split : SplitForWire) (roomId : Uuid) (store : Store)
    (out : RoomDispatchOutcome × RoomState) : SectionOutcome RoomDispatchOutcome :=
  let published := publishDrawingEventsLocked split roomId out.1.events out.2.drawing
  { reply := { out.1 with events := [] }
    state := { out.2 with drawing := published.2 }
    store
    sent := published.1
    held := false }

/-- `handle_stroke_begin_dispatch` under the lock: `caller_may_draw` first. -/
def strokeBeginLocked (verify : VerifyStroke) (envelope : Envelope)
    (p : Except String StrokeBeginPayload) (state : RoomState) (userId : Uuid) (pubkey : PubKey)
    (nowMs : ℤ) : Option (RoomDispatchOutcome × RoomState) :=
  if !state.presentCan userId .drawing .drawBegin then
    some (.capabilityReject "DRAW capability is not held in this room", state)
  else handleStrokeBegin verify envelope p state userId pubkey nowMs

/-- **A write section on a room.**  `none` is a panic of the source. -/
def Section.run (env : SectionEnv) (store : Store) (s : RoomState) :
    (sec : Section) → Option (SectionOutcome sec.Reply)
  | join userId pubkey displayName nowMs =>
    (joinLocked env.cfg s store userId pubkey displayName nowMs).map fun out =>
      .quiet out.1 out.2.1 out.2.2
  | leave userId intentional nowMs =>
    match leaveLocked env.cfg s userId intentional nowMs with
    | none => some (.quiet none s store)
    | some out => some (.quiet (some ⟨out.events, out.state.state = .ended⟩) out.state
        (store.execAll out.requests))
  | connectionLost userId nowMs => some (.quiet () (connectionLostLocked s userId nowMs) store)
  | rejoinHost _ pubkey nowMs => some (.quiet () (rejoinHostLocked s pubkey nowMs) store)
  | rejoin userId pubkey nowMs => some (.quiet () (rejoinLocked s userId pubkey nowMs) store)
  | touch userId nowMs =>
    let out := touchLocked s userId nowMs
    some (.quiet out.1 out.2 store)
  | presenceTimeout nowMs =>
    let out := presenceTimeoutLocked env.cfg s nowMs
    some (.quiet out.1 out.2 store)
  | stale nowMs =>
    let out := staleLocked env.cfg s nowMs
    some (.quiet out.1 out.2 store)
  | grace nowMs =>
    let out := processRoomGrace s nowMs
    some (.quiet out.1 out.2 store)
  | permissionSet caller payload =>
    let out := permissionSetLocked s store caller payload
    let sent := match out.1 with
      | .ok e => publishEvents env.crates.splitPublished s.id [.capabilityUpdated e]
      | .error _ => []
    some ⟨out.1, out.2.1, out.2.2, sent, false⟩
  | playbackCmd userId pubkey payload =>
    let out := playbackLocked s payload userId pubkey env.clockMs
    let sent := match out.1 with
      | .ok e => publishEvents env.crates.splitPublished s.id [.playbackCommand e]
      | .error _ => []
    some ⟨out.1, out.2, store, sent, false⟩
  | strokeBegin envelope p userId pubkey nowMs =>
    (strokeBeginLocked env.crates.verifyStroke envelope p s userId pubkey nowMs).map
      (drawn env.crates.splitPublished s.id store)
  | strokePoint envelope p userId =>
    (handleStrokePoint envelope p s userId).map (drawn env.crates.splitPublished s.id store)
  | strokeEnd envelope p userId =>
    (handleStrokeEnd envelope p s userId).map (drawn env.crates.splitPublished s.id store)
  | strokeUndo envelope p userId =>
    (handleStrokeUndo envelope p s userId).map (drawn env.crates.splitPublished s.id store)
  | strokeClear userId =>
    some (drawn env.crates.splitPublished s.id store (handleStrokeClear s userId))
  | manifestPublish userId pubkey manifest =>
    let out := manifestPublishLocked env.crates s store userId pubkey manifest env.clockMs
    match out.1 with
    -- the manifest is cached and published later, under the same lock
    | .ok c => some ⟨.ok c, s, out.2, [], true⟩
    | .error e => some (.quiet (.error e) s out.2)

end Locast.Rooms
