import Locast.Rooms.Caps

/-!
# Room events and broadcast items (`rooms/registry.rs`, `rooms/error.rs`)

What the handlers ask to be broadcast, and the items that reach a room's channel.  A serialized
payload is the typed payload itself: `WirePayload` has one constructor per message kind.
-/

namespace Locast.Rooms

open Locast.Protocol

/-! ### Errors -/

inductive RoomError where
  | unauthorized
  | invalidCode
  | roomNotFound
  | roomClosed
  | roomFull
  | alreadyJoined
  | notJoined
  | invalidState
  | notHost
  | migrationDisabled
  | staleCommand (got expected : ℕ)
  | duplicateCommand (got last : ℕ)
  | internal (message : String)
  deriving DecidableEq, Repr

namespace RoomError

/-- The wire code. -/
def code : RoomError → RoomErrorCode
  | unauthorized => .unauthorized
  | invalidCode => .invalidCode
  | roomNotFound => .roomNotFound
  | roomClosed => .roomClosed
  | roomFull => .roomFull
  | alreadyJoined => .alreadyJoined
  | notJoined => .notJoined
  | invalidState => .invalidState
  | notHost => .notHost
  | migrationDisabled => .migrationDisabled
  | staleCommand _ _ => .staleCommand
  | duplicateCommand _ _ => .staleCommand
  | internal _ => .internal

/-- The `Display` text. -/
def message : RoomError → String
  | unauthorized => "not authenticated"
  | invalidCode => "invalid room code"
  | roomNotFound => "room not found"
  | roomClosed => "room is closed"
  | roomFull => "room is full"
  | alreadyJoined => "already joined"
  | notJoined => "not joined"
  | invalidState => "invalid state for this action"
  | notHost => "not host"
  | migrationDisabled => "host migration is disabled"
  | staleCommand got expected =>
    "playback monotonic_seq gap (got " ++ toString got ++ ", expected " ++ toString expected ++ ")"
  | duplicateCommand got last =>
    "playback command is stale (seq " ++ toString got ++ " <= last_acked_seq " ++ toString last ++
      ")"
  | internal message => "internal error: " ++ message

end RoomError

/-! ### Events -/

structure CapabilityUpdated where
  targetUserId : Uuid
  capSet : BitVec 32
  deriving DecidableEq

structure ChatMessage where
  roomId : Uuid
  senderId : Uuid
  text : String
  replyTo : Option Uuid
  sentMs : ℤ
  deriving DecidableEq

/-- The per-room event the registry wants broadcast. -/
inductive RoomEvent where
  | participantJoined (participant : Participant)
  | participantLeft (p : ParticipantLeftPayload)
  | hostDisconnected (p : HostDisconnectedPayload)
  | hostReconnected (hostUserId : Uuid)
  | hostMigrated (p : HostMigratedPayload)
  | roomClosed (reason : String)
  | error (target : Uuid) (payload : RoomErrorPayload)
  | manifestPublished (roomId : Uuid) (manifest : MediaManifest) (version publishedAtMs : ℤ)
  | playbackCommand (e : PlaybackAcceptedEvent)
  | positionReport (roomId senderId : Uuid) (payload : PositionReportPayload)
  | strokeBegin (roomId senderId : Uuid) (payload : StrokeBeginPayload)
  | strokePoint (roomId senderId : Uuid) (payload : StrokePointPayload)
  | strokeEnd (roomId senderId : Uuid) (payload : StrokeEndPayload)
  | strokeUndo (roomId actorId : Uuid) (payload : StrokeUndoPayload)
  | strokeClear (roomId actorId : Uuid)
  | laserMove (roomId senderId : Uuid) (payload : LaserMovePayload)
  | laserOff (roomId senderId : Uuid)
  | capabilityUpdated (e : CapabilityUpdated)
  | chatMessage (e : ChatMessage)
  deriving DecidableEq

/-- The kind and the payload of a broadcast item. -/
inductive WirePayload where
  | participantJoined (participant : Participant)
  | participantLeft (p : ParticipantLeftPayload)
  | hostDisconnected (p : HostDisconnectedPayload)
  | hostReconnected (hostUserId : Uuid)
  | hostMigrated (p : HostMigratedPayload)
  | roomClosed (reason : String)
  | roomError (p : RoomErrorPayload)
  | manifestPublished (p : ManifestPublishedPayload)
  | manifestPart (p : ManifestPartPayload)
  | playbackCmd (p : PlaybackAcceptedEvent)
  | positionReport (p : PositionReportPayload)
  | strokeBegin (p : StrokeBeginPayload)
  | strokePoint (p : StrokePointPayload)
  | strokeEnd (p : StrokeEndPayload)
  | strokeUndo (p : StrokeUndoPayload)
  | strokeClear
  | laserMove (p : LaserMovePayload)
  | laserOff
  | capabilityUpdate (p : CapabilityUpdatePayload)
  | chatMessage (p : ChatPayload)
  deriving DecidableEq

/-- A single broadcast item. -/
structure BroadcastItem where
  payload : WirePayload
  roomId : Uuid
  originator : Option Uuid
  sender : Option Uuid
  seq : ℕ
  deriving DecidableEq

/-- The kind and the payload `event_to_broadcast_item` chooses. -/
def RoomEvent.payload : RoomEvent → WirePayload
  | .participantJoined participant => .participantJoined participant
  | .participantLeft p => .participantLeft p
  | .hostDisconnected p => .hostDisconnected p
  | .hostReconnected hostUserId => .hostReconnected hostUserId
  | .hostMigrated p => .hostMigrated p
  | .roomClosed reason => .roomClosed reason
  | .error _ payload => .roomError payload
  | .manifestPublished _ manifest version publishedAtMs =>
    .manifestPublished { manifest, version, publishedAtMs }
  | .playbackCommand e => .playbackCmd e
  | .positionReport _ _ payload => .positionReport payload
  | .strokeBegin _ _ payload => .strokeBegin payload
  | .strokePoint _ _ payload => .strokePoint payload
  | .strokeEnd _ _ payload => .strokeEnd payload
  | .strokeUndo _ _ payload => .strokeUndo payload
  | .strokeClear _ _ => .strokeClear
  | .laserMove _ _ payload => .laserMove payload
  | .laserOff _ _ => .laserOff
  | .capabilityUpdated e => .capabilityUpdate { targetUserId := e.targetUserId, capSet := e.capSet }
  | .chatMessage e =>
    .chatMessage
      { senderId := e.senderId, text := e.text, replyTo := e.replyTo, sentMs := e.sentMs }

/-- The user id stamped on the outgoing envelope. -/
def RoomEvent.sender : RoomEvent → Option Uuid
  | .strokeBegin _ senderId _ | .strokePoint _ senderId _ | .strokeEnd _ senderId _ => some senderId
  | .strokeUndo _ actorId _ | .strokeClear _ actorId => some actorId
  | .laserMove _ senderId _ | .laserOff _ senderId => some senderId
  | _ => none

def eventToBroadcastItem (e : RoomEvent) (roomId : Uuid) (originator : Option Uuid) :
    BroadcastItem where
  payload := e.payload
  roomId := roomId
  originator := originator
  sender := e.sender
  seq := 0

/-- The subscriber `publish_event` suppresses the echo to. -/
def RoomEvent.originator : RoomEvent → Option Uuid
  | .participantJoined participant => some participant.userId
  | .participantLeft p => some p.userId
  | .hostDisconnected p => some p.previousHostUserId
  | .hostReconnected hostUserId => some hostUserId
  | .hostMigrated p => some p.newHostUserId
  | .roomClosed _ => none
  | .error target _ => some target
  | .manifestPublished .. => none
  | .playbackCommand e => some e.senderId
  | .positionReport _ senderId _ => some senderId
  | .strokeBegin _ senderId _ => some senderId
  | .strokePoint _ senderId _ => some senderId
  | .strokeEnd _ senderId _ => some senderId
  | .strokeUndo .. | .strokeClear .. => none
  | .laserMove _ senderId _ | .laserOff _ senderId => some senderId
  | .capabilityUpdated _ => none
  | .chatMessage e => some e.senderId

/-- The room an event itself names; the events without one go where the publisher says. -/
def RoomEvent.ownRoom : RoomEvent → Option Uuid
  | .manifestPublished roomId .. => some roomId
  | .positionReport roomId .. => some roomId
  | .strokeBegin roomId .. => some roomId
  | .strokePoint roomId .. => some roomId
  | .strokeEnd roomId .. => some roomId
  | .strokeUndo roomId .. => some roomId
  | .strokeClear roomId _ => some roomId
  | .laserMove roomId .. => some roomId
  | .laserOff roomId _ => some roomId
  | .chatMessage e => some e.roomId
  | _ => none

/-- `split_for_wire` for a `MANIFEST_PUBLISHED`: the pieces of a manifest that does not fit one
frame, from the manifest, its version and its publication time. -/
abbrev SplitForWire : Type := MediaManifest → ℤ → ℤ → Option (List ManifestPartPayload)

/-- `publish_event`: the room whose channel is written, and the items sent on it in order.
`roomId` is what the caller's closure returns for an event that names no room. -/
def publishEvent (split : SplitForWire) (roomId : Uuid) (seq : ℕ) (e : RoomEvent) :
    Uuid × List BroadcastItem :=
  let room := e.ownRoom.getD roomId
  let whole := (room, [{ eventToBroadcastItem e room e.originator with seq }])
  match e with
  | .manifestPublished _ manifest version publishedAtMs =>
    match split manifest version publishedAtMs with
    | some parts => (room, parts.map fun part =>
        { payload := .manifestPart part, roomId := room, originator := e.originator, sender := none,
          seq := 0 })
    | none => whole
  | _ => whole

/-! ### Outcomes -/

/-- What a reply to the caller carries. -/
inductive ReplyPayload where
  | roomError (p : RoomErrorPayload)
  | roomCreated (room : RoomSummary) (you : ParticipantSelf)
  | roomJoined (p : RoomJoinedPayload)
  | manifestResponse (p : ManifestPublishedPayload)
  | manifestPart (p : ManifestPartPayload)
  deriving DecidableEq

/-- An envelope for the caller alone. -/
structure Reply where
  roomId : Option Uuid
  sender : Option Uuid
  payload : ReplyPayload
  deriving DecidableEq

/-- The result of one handler: replies to the caller, events to broadcast, and whether the caller's
connection is closed. -/
structure RoomDispatchOutcome where
  toCaller : List Reply
  events : List RoomEvent
  closeCaller : Bool
  deriving DecidableEq

namespace RoomDispatchOutcome

/-- `RoomDispatchOutcome::default`. -/
def empty : RoomDispatchOutcome where
  toCaller := []
  events := []
  closeCaller := false

/-- Events alone. -/
def ofEvents (events : List RoomEvent) : RoomDispatchOutcome := { empty with events }

/-- `err_envelope` as the only reply. -/
def ofError (code : RoomErrorCode) (message : String) (expectedSeq : Option ℕ) :
    RoomDispatchOutcome :=
  { empty with toCaller :=
    [{ roomId := none, sender := none, payload := .roomError { code, message, expectedSeq } }] }

/-- `default_reject`. -/
def defaultReject (message : String) : RoomDispatchOutcome := ofError .invalidState message none

/-- `capability_reject`. -/
def capabilityReject (message : String) : RoomDispatchOutcome := ofError .notHost message none

end RoomDispatchOutcome

end Locast.Rooms
