import Locast.Rooms.State

/-!
# Capabilities (`rooms/caps.rs`)

The rule itself, on a participant record and on a room state.  The gate that reads it in several
lock sections before a handler runs is part of the dispatcher's tasks.
-/

namespace Locast.Rooms

open Locast.Protocol

inductive CapsError where
  | notMember
  | notHost
  deriving DecidableEq, Repr

/-- The `Display` text. -/
def CapsError.message : CapsError → String
  | notMember => "not a member of the room"
  | notHost => "not the room host"

/-- The wire code the dispatcher answers with. -/
def CapsError.code : CapsError → RoomErrorCode
  | notMember => .notJoined
  | notHost => .notHost

inductive Scope where
  | playback
  | drawing
  | chat
  | room
  | manifest
  | media
  deriving DecidableEq, Repr

inductive Action where
  | issuePlaybackCommand
  | drawBegin
  | drawPoint
  | drawEnd
  | undoOwnStroke
  | undoAnyStroke
  | clearAll
  | pointLaser
  | sendChat
  | manageRoom
  | kick
  | publishManifest
  | invite
  | keepTempFile
  | deleteTempFile
  deriving DecidableEq, Repr

def Scope.actionBit : Scope → Action → BitVec 32
  | .playback, .issuePlaybackCommand => Cap.playbackControl
  | .drawing, .drawBegin => Cap.draw
  | .drawing, .drawPoint => Cap.draw
  | .drawing, .drawEnd => Cap.draw
  | .drawing, .undoOwnStroke => Cap.undoOwn
  | .drawing, .undoAnyStroke => Cap.undoAny
  | .drawing, .clearAll => Cap.clearAll
  | .drawing, .pointLaser => Cap.laser
  | .chat, .sendChat => Cap.chat
  | .room, .manageRoom => Cap.manageRoom
  | .room, .kick => Cap.kick
  | .manifest, .publishManifest => Cap.publishManifest
  | .manifest, .invite => Cap.invite
  | .media, .keepTempFile => Cap.media
  | .media, .deleteTempFile => Cap.media
  | _, _ => 0

/-- The host may do everything; any other participant needs the action's bit. -/
def participantCan (p : ParticipantRecord) (scope : Scope) (action : Action) : Bool :=
  p.isHost || p.capSet &&& scope.actionBit action ≠ 0

/-- The body of `can`, on the room state it reads. -/
def RoomState.can (s : RoomState) (userId : Uuid) (scope : Scope) (action : Action) : Bool :=
  match s.liveRecord userId with
  | some p => participantCan p scope action
  | none => false

/-- `userId`'s live record is present and may perform `action`: the rule of `actor_can` and
`caller_may_draw`. -/
def RoomState.presentCan (s : RoomState) (userId : Uuid) (scope : Scope) (action : Action) : Bool :=
  match s.liveRecord userId with
  | some p => p.status.isPresent && participantCan p scope action
  | none => false

/-- The commands the gate guards. -/
inductive Command where
  | roomCreate
  | roomJoinRequest
  | roomLeave
  | presence
  | publishManifest
  | fetchManifest
  | signal
  | playbackControl
  | positionReport
  | draw
  | drawUndo
  | drawClear
  | laser
  | permissionSet
  | chatMessage
  deriving DecidableEq, Repr

def Command.toScopeAction : Command → Option (Scope × Action)
  | .playbackControl => some (.playback, .issuePlaybackCommand)
  | .draw => some (.drawing, .drawBegin)
  | .publishManifest => some (.manifest, .publishManifest)
  | .chatMessage => some (.chat, .sendChat)
  | .laser => some (.drawing, .pointLaser)
  | _ => none

end Locast.Rooms
