import Locast.Client.PlaybackSeq
import Mathlib.Data.List.Basic

/-!
# Requests and rejections (`net/room.rs`)

A request registers a waiter under the kind of its reply.  An inbound envelope is handed to the
first waiter of its kind that still listens, and a `ROOM_ERROR` to the first waiter of any kind.
What a `ROOM_ERROR` does to the session depends on the request it resolved.
-/

namespace Locast.Client

open Locast.Protocol

/-! ### Data -/

inductive MessageKind where
  | hello
  | welcome
  | challenge
  | auth
  | authOk
  | authFail
  | authResume
  | roomCreate
  | roomCreated
  | roomJoinRequest
  | roomJoined
  | roomLeave
  | roomState
  | participantJoined
  | participantLeft
  | hostDisconnected
  | hostReconnected
  | hostMigrated
  | roomClosed
  | roomError
  | presence
  | rateLimit
  | manifestPublish
  | manifestPublished
  | manifestRequest
  | manifestResponse
  | manifestPart
  | signal
  | playbackCmd
  | positionReport
  | permissionSet
  | capabilityUpdate
  | chatMessage
  | strokeBegin
  | strokePoint
  | strokeEnd
  | strokeUndo
  | strokeClear
  | strokeSync
  | laserMove
  | laserOff
  | skewProbe
  | skewReply
  | other (name : String)
  deriving DecidableEq

/-- The sending half of a request's channel, and whether its receiver is still there. -/
structure Waiter where
  request : ℕ
  listening : Bool
  deriving DecidableEq

/-- The waiters under each kind, in the order the map is iterated. -/
abbrev Pending : Type := List (MessageKind × List Waiter)

/-- An inbound envelope: its kind, and its payload decoded as a `ROOM_ERROR`. -/
structure Inbound where
  kind : MessageKind
  roomError : Except String RoomErrorPayload
  deriving DecidableEq

/-- What the room client keeps. -/
structure RoomClient (Summary Outbound Media : Type) where
  pending : Pending
  state : Option Summary
  localUserId : Option Uuid
  activeRoomCode : Option (String × String)
  presenceLoop : Bool
  pendingOutbound : List Outbound
  hostMediaSelection : Option Media
  playbackSeq : PlaybackSeq

/-- What the handler sends: the cleared state to the webview, or commands again to the server. -/
inductive Output where
  | stateCleared
  | resend (commands : List SentPlayback)
  deriving DecidableEq

/-! ### Delivery -/

/-- Hands the reply to the first waiter that still listens; the closed ones before it are
dropped. -/
def deliver : List Waiter → Option ℕ × List Waiter
  | [] => (none, [])
  | w :: ws => if w.listening then (some w.request, ws) else deliver ws

/-- Delivers to the queue of a kind, if there is one. -/
def deliverOwn (kind : MessageKind) : Pending → Option (MessageKind × ℕ) × Pending
  | [] => (none, [])
  | (k, ws) :: rest =>
    if k = kind then
      let out := deliver ws
      (out.1.map (kind, ·), (k, out.2) :: rest)
    else
      let out := deliverOwn kind rest
      (out.1, (k, ws) :: out.2)

/-- Delivers to the first queue with a listening waiter. -/
def deliverAny : Pending → Option (MessageKind × ℕ) × Pending
  | [] => (none, [])
  | (k, ws) :: rest =>
    match deliver ws with
    | (some r, ws) => (some (k, r), (k, ws) :: rest)
    | (none, ws) =>
      let out := deliverAny rest
      (out.1, (k, ws) :: out.2)

/-- `deliver_to_pending`: the kind and the request it resolved. -/
def deliverToPending (kind : MessageKind) (pending : Pending) :
    Option (MessageKind × ℕ) × Pending :=
  match deliverOwn kind pending with
  | (some resolved, pending) => (some resolved, pending)
  | (none, pending) => if kind = .roomError then deliverAny pending else (none, pending)

/-! ### Rejections -/

/-- The code says that the membership is gone. -/
def endsMembership : RoomErrorCode → Bool
  | .unauthorized | .roomNotFound | .roomClosed | .notJoined => true
  | _ => false

/-- `room_error_ends_membership`. -/
def roomErrorEndsMembership (env : Inbound) : Bool :=
  match env.roomError with
  | .ok p => endsMembership p.code
  | .error _ => true

namespace RoomClient

variable {Summary Outbound Media : Type}

/-- `forget_room_session`. -/
def forgetRoomSession (c : RoomClient Summary Outbound Media) : RoomClient Summary Outbound Media :=
  { c with
    activeRoomCode := none
    pendingOutbound := []
    hostMediaSelection := none
    playbackSeq := .new }

/-- `drop_room_session`. -/
def dropRoomSession (c : RoomClient Summary Outbound Media) :
    RoomClient Summary Outbound Media × List Output :=
  ({ c.forgetRoomSession with state := none, localUserId := none, presenceLoop := false },
    [.stateCleared])

/-- `resync_playback_seq`. -/
def resyncPlaybackSeq (expected : ℕ) (stateRefusal : Bool) (c : RoomClient Summary Outbound Media) :
    RoomClient Summary Outbound Media × List Output :=
  let plan := c.playbackSeq.planResync expected stateRefusal
  ({ c with playbackSeq := plan.2 },
    if plan.1.isEmpty || c.state.isNone then [] else [.resend plan.1])

/-- The `ROOM_ERROR` arms of `handle_inbound`, after the delivery. -/
def handleRoomError (env : Inbound) (resolved : Option MessageKind)
    (c : RoomClient Summary Outbound Media) : RoomClient Summary Outbound Media × List Output :=
  if resolved = some .manifestResponse then (c, [])
  else if resolved = none ∧ roomErrorEndsMembership env = false then
    match env.roomError with
    | .ok ⟨.staleCommand, _, some expected⟩ => c.resyncPlaybackSeq expected false
    | .ok ⟨.invalidState, _, some expected⟩ => c.resyncPlaybackSeq expected true
    | _ => (c, [])
  else if resolved = some .roomJoined ∨ resolved = some .roomCreated then (c, [])
  else c.dropRoomSession

/-- `handle_inbound`, of a `ROOM_ERROR`. -/
def handleInbound (env : Inbound) (c : RoomClient Summary Outbound Media) :
    RoomClient Summary Outbound Media × List Output :=
  let out := deliverToPending env.kind c.pending
  { c with pending := out.2 }.handleRoomError env (out.1.map Prod.fst)

end RoomClient

end Locast.Client
