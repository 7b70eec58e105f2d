import Locast.Protocol.Manifest
import Mathlib.Data.Nat.Notation
import Mathlib.Data.Int.Notation

/-!
# Wire types of the room protocol (`shared/protocol/src/room.rs`, `envelope.rs`)

A `serde_json` payload is not modelled as text: an `Envelope` carries, for each message kind, the
result of decoding its payload with the type that kind's handler asks for, so a malformed payload
is an `Except.error` with the decoder's message.
-/

namespace Locast.Protocol

/-- A UUID as its 128-bit value; the order of the values is the order of the big-endian bytes. -/
abbrev Uuid : Type := ℕ

/-- A raw 32-byte Ed25519 public key. -/
abbrev PubKey : Type := Vector UInt8 32

/-! ### Capabilities -/

namespace Cap

def playbackControl : BitVec 32 := 0x01
def draw : BitVec 32 := 0x02
def laser : BitVec 32 := 0x04
def manageRoom : BitVec 32 := 0x08
def kick : BitVec 32 := 0x10
def publishManifest : BitVec 32 := 0x20
def invite : BitVec 32 := 0x40
def chat : BitVec 32 := 0x80
def media : BitVec 32 := 0x100
def undoOwn : BitVec 32 := 0x200
def undoAny : BitVec 32 := 0x400
def clearAll : BitVec 32 := 0x800

/-- The set the server gives a room's host. -/
def host : BitVec 32 :=
  playbackControl ||| draw ||| laser ||| manageRoom ||| kick ||| publishManifest ||| invite |||
    chat ||| undoOwn ||| undoAny ||| clearAll

end Cap

/-! ### Floats -/

/-- An `f32` as its IEEE 754 bits. -/
abbrev F32 : Type := BitVec 32

namespace F32

/-- The exponent is not all ones: neither an infinity nor a NaN. -/
def isFinite (n : F32) : Bool := (n >>> 23) &&& 0xFF != 0xFF

/-- `0.0 <= n` for a finite `n`; `-0.0` counts. -/
def nonneg (n : F32) : Bool := n == 0x80000000 || n.toNat < 0x80000000

/-- `n <= 1.0` for a finite `n`. -/
def leOne (n : F32) : Bool := 0x80000000 ≤ n.toNat || n.toNat ≤ 0x3F800000

/-- `n > 0.0` for a finite `n`. -/
def pos (n : F32) : Bool := n.toNat ≠ 0 && n.toNat < 0x80000000

end F32

/-! ### Participants and room summaries -/

inductive ParticipantStatus where
  | joining
  | connected
  | reconnecting
  | disconnected
  | left
  deriving DecidableEq, Repr

/-- `matches!(status, Connected | Reconnecting)`. -/
def ParticipantStatus.isPresent : ParticipantStatus → Bool
  | connected | reconnecting => true
  | _ => false

structure Participant where
  userId : Uuid
  pubkey : List UInt8
  displayName : String
  joinedMs : ℤ
  status : ParticipantStatus
  lastSeenMs : ℤ
  isHost : Bool
  deriving DecidableEq

structure ParticipantSelf where
  userId : Uuid
  capSet : BitVec 32
  joinedMs : ℤ
  deriving DecidableEq

structure PlaybackSnapshot where
  paused : Bool
  mediaPositionMs : ℕ
  serverTsMs : ℤ
  serverSeq : ℕ
  senderId : Uuid
  monotonicSeq : ℕ
  deriving DecidableEq

structure RoomSummary where
  id : Uuid
  code : String
  title : String
  hostUserId : Uuid
  hostMigrationEnabled : Bool
  createdMs : ℤ
  participants : List Participant
  hostDisconnected : Bool
  hostDisconnectDeadlineMs : Option ℤ
  playback : Option PlaybackSnapshot
  deriving DecidableEq

structure RoomJoinedPayload where
  room : RoomSummary
  you : ParticipantSelf
  deriving DecidableEq

/-! ### Requests -/

structure RoomCreatePayload where
  title : String
  migrationEnabled : Bool
  deriving DecidableEq

structure RoomJoinRequestPayload where
  code : String
  displayName : String
  deriving DecidableEq

inductive PlaybackAction where
  | play
  | pause
  | seek
  deriving DecidableEq, Repr

structure PlaybackCommandPayload where
  action : PlaybackAction
  monotonicSeq : ℕ
  mediaPositionMs : ℕ
  clientTsMs : ℤ
  deriving DecidableEq

structure PermissionSetPayload where
  targetUserId : Uuid
  addCapSet : BitVec 32
  removeCapSet : BitVec 32
  deriving DecidableEq

structure ChatPayload where
  senderId : Uuid
  text : String
  replyTo : Option Uuid
  sentMs : ℤ
  deriving DecidableEq

structure PositionReportPayload where
  userId : Uuid
  mediaPositionMs : ℕ
  playing : Bool
  clientTsMs : ℤ
  deriving DecidableEq

inductive StrokeTool where
  | pen
  | arrow
  | rect
  | circle
  | text
  | eraser
  deriving DecidableEq, Repr

structure StrokeBeginPayload where
  strokeId : Uuid
  tool : StrokeTool
  color : String
  width : F32
  x : F32
  y : F32
  pressure : F32
  tsMs : ℤ
  deriving DecidableEq

structure StrokePointPayload where
  strokeId : Uuid
  x : F32
  y : F32
  pressure : F32
  tsMs : ℤ
  deriving DecidableEq

structure StrokeEndPayload where
  strokeId : Uuid
  tsMs : ℤ
  deriving DecidableEq

structure StrokeUndoPayload where
  strokeId : Uuid
  deriving DecidableEq

structure StrokeSyncPoint where
  x : F32
  y : F32
  pressure : F32
  tsMs : ℤ
  deriving DecidableEq

structure StrokeSyncStroke where
  strokeId : Uuid
  ownerId : Uuid
  begin : Option StrokeBeginPayload
  points : List StrokeSyncPoint
  endTsMs : Option ℤ
  deriving DecidableEq

structure StrokeSyncPayload where
  seq : ℕ
  strokes : List StrokeSyncStroke
  deriving DecidableEq

structure LaserMovePayload where
  x : F32
  y : F32
  deriving DecidableEq

inductive SignalKind where
  | offer
  | answer
  | ice
  deriving DecidableEq, Repr

structure SignalCandidate where
  candidate : String
  sdpMid : Option String
  sdpMLineIndex : Option ℕ
  deriving DecidableEq

structure SignalPayload where
  toUserId : Uuid
  kind : SignalKind
  sdp : Option String
  candidates : Option (List SignalCandidate)
  deriving DecidableEq

/-! ### Broadcast payloads -/

structure PlaybackAcceptedEvent where
  senderId : Uuid
  action : PlaybackAction
  monotonicSeq : ℕ
  mediaPositionMs : ℕ
  clientTsMs : ℤ
  serverSeq : ℕ
  serverTsMs : ℤ
  deriving DecidableEq

structure ParticipantLeftPayload where
  userId : Uuid
  reason : String
  deriving DecidableEq

structure HostDisconnectedPayload where
  previousHostUserId : Uuid
  reconnectDeadlineMs : ℤ
  newHostUserId : Option Uuid
  deriving DecidableEq

structure HostMigratedPayload where
  previousHostUserId : Uuid
  newHostUserId : Uuid
  summary : Option RoomSummary
  deriving DecidableEq

structure CapabilityUpdatePayload where
  targetUserId : Uuid
  capSet : BitVec 32
  deriving DecidableEq

structure ManifestPublishedPayload where
  manifest : MediaManifest
  version : ℤ
  publishedAtMs : ℤ
  deriving DecidableEq

inductive ManifestPartKind where
  | publish
  | published
  | response
  deriving DecidableEq, Repr

structure ManifestPartPayload where
  assemblyId : Uuid
  kind : ManifestPartKind
  index : ℕ
  total : ℕ
  totalBytes : ℕ
  digest : String
  version : ℤ
  publishedAtMs : ℤ
  data : String
  deriving DecidableEq

/-! ### Errors and envelopes -/

inductive RoomErrorCode where
  | unauthorized
  | invalidCode
  | roomNotFound
  | roomClosed
  | roomFull
  | alreadyJoined
  | notJoined
  | invalidState
  | notHost
  | migrationDisabled
  | internal
  | staleCommand
  deriving DecidableEq, Repr

structure RoomErrorPayload where
  code : RoomErrorCode
  message : String
  expectedSeq : Option ℕ
  deriving DecidableEq

/-- The identity and signature block of an envelope. -/
structure Sender where
  userId : Uuid
  pubkey : List UInt8
  sig : List UInt8
  deriving DecidableEq

/-- The kind of a client's envelope with its decoded payload; `other` is every kind the room
dispatcher has no handler for. -/
inductive Body where
  | roomCreate (p : Except String RoomCreatePayload)
  | roomJoinRequest (p : Except String RoomJoinRequestPayload)
  | roomLeave
  | presence
  | manifestPublish (p : Except String MediaManifest)
  | manifestRequest (p : Except String Uuid)
  | signal (p : Except String SignalPayload)
  | playbackCmd (p : Except String PlaybackCommandPayload)
  | positionReport (p : Except String PositionReportPayload)
  | strokeBegin (p : Except String StrokeBeginPayload)
  | strokePoint (p : Except String StrokePointPayload)
  | strokeEnd (p : Except String StrokeEndPayload)
  | strokeUndo (p : Except String StrokeUndoPayload)
  | strokeClear
  | permissionSet (p : Except String PermissionSetPayload)
  | chatMessage (p : Except String ChatPayload)
  | laserMove (p : Except String LaserMovePayload)
  | laserOff
  | other

/-- `serializedLen` is the length of the envelope's JSON, which the signal relay bounds. -/
structure Envelope where
  roomId : Option Uuid
  sender : Option Sender
  body : Body
  serializedLen : ℕ

end Locast.Protocol
