import Locast.Rooms.Events

/-!
# Playback commands (`rooms/playback.rs`)

The part of `handle_playback_cmd` that runs under the room's write lock, and how a refusal is put on
the wire.
-/

namespace Locast.Rooms

open Locast.Lib Locast.Protocol

inductive PlaybackError where
  | noRoomId
  | notJoined
  | roomClosed
  | invalidTransition (expected : ℕ)
  | notHost
  | staleCommand (got expected : ℕ)
  | duplicateCommand (got last : ℕ)
  | badPayload (message : String)
  deriving DecidableEq, Repr

namespace PlaybackError

/-- `From<PlaybackError> for RoomError`. -/
def toRoomError : PlaybackError → RoomError
  | noRoomId => .invalidState
  | notJoined => .notJoined
  | roomClosed => .roomClosed
  | invalidTransition _ => .invalidState
  | notHost => .notHost
  | staleCommand got expected => .staleCommand got expected
  | duplicateCommand got last => .duplicateCommand got last
  | badPayload message => .internal message

/-- The `expected_seq` the dispatcher adds to a refusal. -/
def expectedSeq : PlaybackError → Option ℕ
  | staleCommand _ expected => some expected
  | invalidTransition expected => some expected
  | duplicateCommand _ last => some (min (last + 1) (2 ^ 64 - 1))
  | _ => none

end PlaybackError

/-- The largest `u64`. -/
def u64Max : ℕ := 2 ^ 64 - 1

/-- The lifecycle precondition of a command. -/
def RoomLifecycle.accepts : RoomLifecycle → PlaybackAction → Bool
  | .open, .play | .paused, .play => true
  | .playing, .play => true
  | .playing, .pause => true
  | .paused, .pause => true
  | .playing, .seek | .paused, .seek => true
  | _, _ => false

/-- The lifecycle after an accepted command. -/
def RoomLifecycle.after (state : RoomLifecycle) : PlaybackAction → RoomLifecycle
  | .play => .playing
  | .pause => .paused
  | .seek => state

/-- The last `monotonic_seq` accepted from `userId` since it joined. -/
def RoomState.lastAcked (state : RoomState) (userId : Uuid) : ℕ :=
  (state.playback.lastAckedSeq.get userId).getD 0

/-- Why a command is refused, in the order the handler checks. -/
def playbackRefusal (state : RoomState) (payload : PlaybackCommandPayload) (userId : Uuid)
    (pubkey : PubKey) : Option PlaybackError :=
  if state.state = .ended then some .roomClosed
  else match state.liveRecord userId with
  | none => some .notJoined
  | some caller =>
    if caller.pubkey ≠ pubkey || !participantCan caller .playback .issuePlaybackCommand then
      some .notHost
    else
      let last := state.lastAcked userId
      let expected := min (last + 1) u64Max
      if !state.state.accepts payload.action then some (.invalidTransition expected)
      else if payload.monotonicSeq < expected then
        some (.duplicateCommand payload.monotonicSeq last)
      else if expected < payload.monotonicSeq then
        some (.staleCommand payload.monotonicSeq expected)
      else if u64Max ≤ state.playback.serverSeq then some (.badPayload "server_seq overflow")
      else none

/-- The event of an accepted command. -/
def acceptedEvent (state : RoomState) (payload : PlaybackCommandPayload) (userId : Uuid)
    (serverTsMs : ℤ) : PlaybackAcceptedEvent where
  senderId := userId
  action := payload.action
  monotonicSeq := payload.monotonicSeq
  mediaPositionMs := payload.mediaPositionMs
  clientTsMs := payload.clientTsMs
  serverSeq := state.playback.serverSeq + 1
  serverTsMs := serverTsMs

/-- What accepting a command does to the room. -/
def RoomState.accept (state : RoomState) (e : PlaybackAcceptedEvent) : RoomState :=
  { state with
    state := state.state.after e.action
    playback :=
      { serverSeq := e.serverSeq
        lastAckedSeq := state.playback.lastAckedSeq.insert e.senderId e.monotonicSeq
        lastPositionMs := e.mediaPositionMs
        lastServerTsMs := e.serverTsMs
        lastSender := some e.senderId
        lastMonotonicSeq := e.monotonicSeq } }

/-- The write section of `handle_playback_cmd`. -/
def playbackLocked (state : RoomState) (payload : PlaybackCommandPayload) (userId : Uuid)
    (pubkey : PubKey) (clockMs : ℤ) : Except PlaybackError PlaybackAcceptedEvent × RoomState :=
  match playbackRefusal state payload userId pubkey with
  | some e => (.error e, state)
  | none =>
    let event := acceptedEvent state payload userId clockMs
    (.ok event, state.accept event)

/-- `code_for_message`. -/
def codeForMessage : RoomErrorCode → String
  | .unauthorized => "not authorized"
  | .notHost => "caller is not the host"
  | .notJoined => "caller is not a room member"
  | .roomClosed => "room is closed"
  | .invalidState => "playback command is not valid in the current room state"
  | .staleCommand => "playback monotonic_seq is out of window"
  | _ => "playback rejected"

/-- The reply to a refused command. -/
def playbackReject (e : PlaybackError) : RoomDispatchOutcome :=
  .ofError e.toRoomError.code ("playback rejected: " ++ codeForMessage e.toRoomError.code)
    e.expectedSeq

end Locast.Rooms
