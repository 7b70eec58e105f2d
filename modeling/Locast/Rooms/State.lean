import Locast.Rooms.Stroke

/-!
# The state of one room (`rooms/state.rs`)

`RoomState` is what a room's write lock protects.  A user's capabilities, its presence and the host
are all read off `participants`.
-/

namespace Locast.Rooms

open Locast.Lib Locast.Protocol

/-- What a change of the record that `iter_mut().find(p)` finds does to a list. -/
def updateFirst {α : Type} (p : α → Bool) (f : α → α) : List α → List α
  | [] => []
  | a :: l => if p a then f a :: l else a :: updateFirst p f l

inductive RoomLifecycle where
  | open
  | playing
  | paused
  | ended
  deriving DecidableEq, Repr

/-- The server-side participant record. -/
structure ParticipantRecord where
  userId : Uuid
  pubkey : PubKey
  displayName : String
  joinedMs : ℤ
  status : ParticipantStatus
  lastSeenMs : ℤ
  isHost : Bool
  capSet : BitVec 32
  deriving DecidableEq

/-- The wire shape that other clients see. -/
def ParticipantRecord.toPublic (p : ParticipantRecord) : Participant where
  userId := p.userId
  pubkey := p.pubkey.toList
  displayName := p.displayName
  joinedMs := p.joinedMs
  status := p.status
  lastSeenMs := p.lastSeenMs
  isHost := p.isHost

structure PlaybackBookkeeping where
  serverSeq : ℕ
  lastAckedSeq : AMap Uuid ℕ
  lastPositionMs : ℕ
  lastServerTsMs : ℤ
  lastSender : Option Uuid
  lastMonotonicSeq : ℕ

/-- `PlaybackBookkeeping::default`. -/
def PlaybackBookkeeping.empty : PlaybackBookkeeping where
  serverSeq := 0
  lastAckedSeq := ∅
  lastPositionMs := 0
  lastServerTsMs := 0
  lastSender := none
  lastMonotonicSeq := 0

structure RoomState where
  id : Uuid
  code : String
  title : String
  hostUserId : Uuid
  hostPubkey : PubKey
  hostMigrationEnabled : Bool
  createdMs : ℤ
  state : RoomLifecycle
  hostDisconnectDeadlineMs : Option ℤ
  participants : List ParticipantRecord
  playback : PlaybackBookkeeping
  drawing : StrokeBookkeeping

namespace RoomState

/-- A brand-new room.  `wallMs` is the wall clock that `StrokeBookkeeping::new` reads. -/
def new (id : Uuid) (code title : String) (hostUserId : Uuid) (hostPubkey : PubKey)
    (hostMigrationEnabled : Bool) (createdMs : ℤ) (capSet : BitVec 32) (wallMs : ℕ) :
    RoomState where
  id := id
  code := code
  title := title
  hostUserId := hostUserId
  hostPubkey := hostPubkey
  hostMigrationEnabled := hostMigrationEnabled
  createdMs := createdMs
  state := .open
  hostDisconnectDeadlineMs := none
  participants :=
    [{ userId := hostUserId, pubkey := hostPubkey, displayName := "", joinedMs := createdMs,
       status := .connected, lastSeenMs := createdMs, isHost := true, capSet }]
  playback := .empty
  drawing := .new wallMs

/-- The current host record, if any. -/
def host (s : RoomState) : Option ParticipantRecord := s.participants.find? fun p => p.isHost

/-- The grace timer is running. -/
def hostDisconnected (s : RoomState) : Bool := s.hostDisconnectDeadlineMs.isSome

/-- The playback state for a client that was not there for the commands. -/
def playbackSnapshot (s : RoomState) : Option PlaybackSnapshot :=
  let shot (paused : Bool) : Option PlaybackSnapshot := s.playback.lastSender.map fun sender =>
    { paused
      mediaPositionMs := s.playback.lastPositionMs
      serverTsMs := s.playback.lastServerTsMs
      serverSeq := s.playback.serverSeq
      senderId := sender
      monotonicSeq := s.playback.lastMonotonicSeq }
  match s.state with
  | .playing => shot false
  | .paused => shot true
  | .open | .ended => none

/-- The public summary. -/
def snapshot (s : RoomState) : RoomSummary where
  id := s.id
  code := s.code
  title := s.title
  hostUserId := s.hostUserId
  hostMigrationEnabled := s.hostMigrationEnabled
  createdMs := s.createdMs
  participants := (s.participants.filter fun p => p.status ≠ .left).map (·.toPublic)
  hostDisconnected := s.hostDisconnected
  hostDisconnectDeadlineMs := s.hostDisconnectDeadlineMs
  playback := s.playbackSnapshot

/-- The first record of `userId`. -/
def record (s : RoomState) (userId : Uuid) : Option ParticipantRecord :=
  s.participants.find? fun p => p.userId == userId

/-- `userId` has a record that is not `left`. -/
def isMember (s : RoomState) (userId : Uuid) : Bool :=
  s.participants.any fun p => p.userId == userId && p.status ≠ .left

/-- The number of records that are not `left`. -/
def liveCount (s : RoomState) : ℕ := s.participants.countP fun p => p.status ≠ .left

/-- The first record of `userId` that is not `left`. -/
def liveRecord (s : RoomState) (userId : Uuid) : Option ParticipantRecord :=
  s.participants.find? fun p => p.userId == userId && p.status ≠ .left

/-- The caller's own record, for `ROOM_CREATED` and `ROOM_JOINED`: the last live one. -/
def selfView (s : RoomState) (userId : Uuid) : Option ParticipantSelf :=
  (s.participants.reverse.find? fun p => p.userId == userId && p.status ≠ .left).map fun p =>
    { userId := p.userId, capSet := p.capSet, joinedMs := p.joinedMs }

lemma liveRecord_spec {s : RoomState} {userId : Uuid} {p : ParticipantRecord}
    (h : s.liveRecord userId = some p) : p ∈ s.participants ∧ p.userId = userId ∧
      p.status ≠ .left := by
  have hp := List.find?_some h
  simp only [Bool.and_eq_true, beq_iff_eq, decide_eq_true_eq] at hp
  exact ⟨List.mem_of_find?_eq_some h, hp⟩

end RoomState

end Locast.Rooms
