import Locast.Rooms.Events
import Locast.Rooms.Store

/-!
# Membership (`rooms/registry.rs`, `rooms/host.rs`)

What each membership operation of the registry does while it holds a room's write lock.  The checks
it makes before, its store calls outside the lock and its publishes after it belong to the
operation's program.
-/

namespace Locast.Rooms

open Locast.Lib Locast.Protocol

structure RoomRegistryConfig where
  maxParticipants : ℕ
  hostDisconnectGraceMs : ℤ
  participantStaleAfterMs : ℤ
  participantDisconnectAfterMs : ℤ
  deriving DecidableEq

/-- `i64::saturating_sub`. -/
def saturatingSub (a b : ℤ) : ℤ := max (-2 ^ 63) (min (a - b) (2 ^ 63 - 1))

/-! ### Host election (`host.rs`) -/

/-- The records a host may be elected from. -/
def ParticipantRecord.isCandidate (p : ParticipantRecord) : Bool := !p.isHost && p.status.isPresent

/-- The crown passes to `newHost`. -/
def ParticipantRecord.crown (newHost : Uuid) (p : ParticipantRecord) : ParticipantRecord :=
  if p.userId = newHost then { p with isHost := true, capSet := Cap.host }
  else if p.isHost then { p with isHost := false, capSet := Cap.chat }
  else p

def RoomState.withHost (s : RoomState) (newHost : Uuid) : RoomState :=
  { s with participants := s.participants.map (·.crown newHost), hostUserId := newHost }

/-- The order of `(joined_ms, user_id)`. -/
def joinsBefore (p q : ParticipantRecord) : Bool :=
  p.joinedMs < q.joinedMs || (p.joinedMs == q.joinedMs && p.userId < q.userId)

/-- `elect_new_host`: the candidate who joined first, then the smallest user id. -/
def electNewHost (state : RoomState) : Option (Uuid × RoomState) :=
  let candidates := state.participants.filter (·.isCandidate)
  match least joinsBefore candidates with
  | none => none
  | some newHost => some (newHost.userId, state.withHost newHost.userId)

/-- `try_migrate_host`, which v1 leaves out. -/
def tryMigrateHost (_ : RoomState) : Option (Uuid × RoomState) := none

/-- `process_room_grace`. -/
def processRoomGrace (state : RoomState) (nowMs : ℤ) : Option RoomEvent × RoomState :=
  match state.hostDisconnectDeadlineMs with
  | none => (none, state)
  | some deadline =>
    if nowMs < deadline then (none, state)
    else
      let ended := (some (.roomClosed "host_disconnected_no_migration"),
        { state with state := RoomLifecycle.ended })
      if state.hostMigrationEnabled then
        match tryMigrateHost state with
        | some (newHost, s) =>
          let migrated := { s with hostDisconnectDeadlineMs := none }
          let p : HostMigratedPayload :=
            { previousHostUserId := state.hostUserId, newHostUserId := newHost,
              summary := some migrated.snapshot }
          (some (.hostMigrated p), migrated)
        | none => ended
      else ended

/-! ### Joining and leaving -/

/-- The record a join adds. -/
def joinRecord (userId : Uuid) (pubkey : PubKey) (displayName : String) (nowMs : ℤ) :
    ParticipantRecord where
  userId := userId
  pubkey := pubkey
  displayName := displayName
  joinedMs := nowMs
  status := .connected
  lastSeenMs := nowMs
  isHost := false
  capSet := Cap.chat

/-- The room with a new record: an old `left` record of the user goes, and so does the user's
command counter. -/
def RoomState.withJoined (s : RoomState) (p : ParticipantRecord) : RoomState :=
  let kept := s.participants.filter fun q => !(q.userId == p.userId && q.status = .left)
  let playback := { s.playback with lastAckedSeq := s.playback.lastAckedSeq.erase p.userId }
  { s with participants := kept ++ [p], playback }

/-- Why a join is refused, in the order it checks. -/
def joinRefusal (cfg : RoomRegistryConfig) (state : RoomState) (userId : Uuid) : Option RoomError :=
  if state.state = .ended then some .roomClosed
  else if state.isMember userId then some .alreadyJoined
  else if cfg.maxParticipants ≤ state.liveCount then some .roomFull
  else none

/-- The write section of `join`.  `none` would be its `expect` failing. -/
def joinLocked (cfg : RoomRegistryConfig) (state : RoomState) (store : Store) (userId : Uuid)
    (pubkey : PubKey) (displayName : String) (nowMs : ℤ) :
    Option (Except RoomError (RoomJoinedPayload × RoomEvent) × RoomState × Store) :=
  match joinRefusal cfg state userId with
  | some e => some (.error e, state, store)
  | none =>
    match store.exec (.addRoomParticipant state.id userId pubkey displayName false nowMs Cap.chat)
      with
    | (.error e, store) => some (.error (.internal ("add_room_participant: " ++ e)), state, store)
    | (.ok (), store) =>
      let p := joinRecord userId pubkey displayName nowMs
      let admitted := state.withJoined p
      match admitted.selfView userId with
      | none => none
      | some you =>
        some (.ok ({ room := admitted.snapshot, you }, .participantJoined p.toPublic),
          admitted, store)

/-- The live record of `userId` with a new status. -/
def RoomState.mark (s : RoomState) (userId : Uuid) (status : ParticipantStatus) (nowMs : ℤ) :
    RoomState :=
  let participants := updateFirst (fun p => p.userId == userId && p.status ≠ .left)
    (fun p => { p with lastSeenMs := nowMs, status }) s.participants
  { s with participants }

/-- What a leave decided: the room, the announcements and the store calls. -/
structure LeaveOutcome where
  state : RoomState
  events : List RoomEvent
  requests : List StoreRequest

/-- The announcement of a leave. -/
def leftEvent (userId : Uuid) : RoomEvent := .participantLeft { userId, reason := "leave" }

/-- The host leaves and the room ends. -/
def leaveClosing (state : RoomState) (userId : Uuid) (reason : String) (nowMs : ℤ) :
    LeaveOutcome where
  state := { state.mark userId .left nowMs with state := .ended }
  events := [.roomClosed reason, leftEvent userId]
  requests := [.endRoom state.id nowMs]

/-- The host `leaver` leaves and `newHost` takes over. -/
def leaveMigrating (migrated : RoomState) (leaver : ParticipantRecord) (newHost : Uuid)
    (nowMs : ℤ) : LeaveOutcome where
  state := migrated
  events :=
    [.hostMigrated ⟨leaver.userId, newHost, some migrated.snapshot⟩, leftEvent leaver.userId]
  requests :=
    (migrated.host.toList.map fun h =>
      .addRoomParticipant migrated.id h.userId h.pubkey h.displayName true h.joinedMs h.capSet) ++
    [.addRoomParticipant migrated.id leaver.userId leaver.pubkey leaver.displayName false
        leaver.joinedMs Cap.chat,
      .updateParticipantStatus migrated.id leaver.userId .left nowMs]

/-- The host's transport is lost; without a grace period the election is now. -/
def leaveWaiting (cfg : RoomRegistryConfig) (state : RoomState) (userId : Uuid) (nowMs : ℤ) :
    LeaveOutcome :=
  let deadline := nowMs + cfg.hostDisconnectGraceMs
  let waiting :=
    { state.mark userId .reconnecting nowMs with hostDisconnectDeadlineMs := some deadline }
  let elected := if cfg.hostDisconnectGraceMs ≤ 0 then electNewHost waiting else none
  { state := (elected.map (·.2)).getD waiting
    events := [.hostDisconnected ⟨userId, deadline, elected.map (·.1)⟩]
    requests := [.setHostDisconnectDeadline state.id (some deadline)] }

/-- A viewer leaves. -/
def leaveViewing (state : RoomState) (userId : Uuid) (nowMs : ℤ) : LeaveOutcome where
  state := state.mark userId .left nowMs
  events := [leftEvent userId]
  requests := [.updateParticipantStatus state.id userId .left nowMs]

/-- The write section of `leave_room`, or `none` for `NotJoined`. -/
def leaveLocked (cfg : RoomRegistryConfig) (state : RoomState) (userId : Uuid) (intentional : Bool)
    (nowMs : ℤ) : Option LeaveOutcome :=
  if state.state = .ended then none
  else match state.liveRecord userId with
  | none => none
  | some leaver =>
    if !leaver.isHost then some (leaveViewing state userId nowMs)
    else if !state.hostMigrationEnabled then
      let reason := if intentional then "host_left" else "host_disconnected_no_migration"
      some (leaveClosing state userId reason nowMs)
    else if intentional then
      match electNewHost (state.mark userId .left nowMs) with
      | none => some (leaveClosing state userId "host_left" nowMs)
      | some (newHost, migrated) => some (leaveMigrating migrated leaver newHost nowMs)
    else some (leaveWaiting cfg state userId nowMs)

/-! ### Transports -/

/-- The write section of `connection_lost_in_room` for a viewer. -/
def connectionLostLocked (state : RoomState) (userId : Uuid) (nowMs : ℤ) : RoomState :=
  if state.state = .ended then state
  else
    let participants := updateFirst (fun p => p.userId == userId)
      (fun p => { p with status := .disconnected, lastSeenMs := nowMs }) state.participants
    { state with participants }

/-- The write section of `rejoin_in_room` for a host in its grace period. -/
def rejoinHostLocked (state : RoomState) (pubkey : PubKey) (nowMs : ℤ) : RoomState :=
  let participants := updateFirst (fun p => p.isHost)
    (fun p => { p with status := .connected, lastSeenMs := nowMs, pubkey }) state.participants
  { state with hostDisconnectDeadlineMs := none, participants }

/-- The write section of `rejoin_in_room` for everyone else. -/
def rejoinLocked (state : RoomState) (userId : Uuid) (pubkey : PubKey) (nowMs : ℤ) : RoomState :=
  let participants := updateFirst (fun p => p.userId == userId)
    (fun p => { p with status := .connected, lastSeenMs := nowMs, pubkey }) state.participants
  { state with participants }

/-- The record after a sign of life: a `disconnected` viewer is back. -/
def ParticipantRecord.touched (nowMs : ℤ) (p : ParticipantRecord) : ParticipantRecord :=
  { p with
    lastSeenMs := nowMs
    status := if !p.isHost && p.status = .disconnected then .connected else p.status }

/-- The write section of `touch`, and whether it found the user. -/
def touchLocked (state : RoomState) (userId : Uuid) (nowMs : ℤ) : Bool × RoomState :=
  let participants :=
    updateFirst (fun p => p.userId == userId) (·.touched nowMs) state.participants
  ((state.record userId).isSome, { state with participants })

/-! ### Ticks -/

/-- A viewer that has been silent for too long. -/
def ParticipantRecord.timesOut (cfg : RoomRegistryConfig) (nowMs : ℤ) (p : ParticipantRecord) :
    Bool :=
  !p.isHost && p.status = .connected &&
    cfg.participantDisconnectAfterMs ≤ saturatingSub nowMs p.lastSeenMs

/-- One room of `tick_presence_timeout`: the users it disconnects. -/
def presenceTimeoutLocked (cfg : RoomRegistryConfig) (state : RoomState) (nowMs : ℤ) :
    List Uuid × RoomState :=
  if state.state = .ended then ([], state)
  else
    let participants := state.participants.map fun p =>
      if p.timesOut cfg nowMs then { p with status := .disconnected } else p
    ((state.participants.filter (·.timesOut cfg nowMs)).map (·.userId), { state with participants })

/-- A viewer that has been silent for the stale window. -/
def ParticipantRecord.isStale (cfg : RoomRegistryConfig) (nowMs : ℤ)
    (p : ParticipantRecord) : Bool :=
  !p.isHost && cfg.participantStaleAfterMs ≤ saturatingSub nowMs p.lastSeenMs

/-- One room of `tick_stale_participants`: the users it removes, last record first.  The records of
users who left are dropped without a word. -/
def staleLocked (cfg : RoomRegistryConfig) (state : RoomState) (nowMs : ℤ) :
    List Uuid × RoomState :=
  if state.state = .ended then ([], state)
  else if state.hostDisconnectDeadlineMs.isSome then ([], state)
  else
    let retained := state.participants.filter fun p => !(p.status = .left && p.isStale cfg nowMs)
    let stale := retained.filter fun p => p.status ≠ .left && p.isStale cfg nowMs
    let participants := retained.filter fun p => !(p.status ≠ .left && p.isStale cfg nowMs)
    (stale.reverse.map (·.userId), { state with participants })

/-- The announcement of a tick. -/
def timedOut (userId : Uuid) : RoomEvent := .participantLeft { userId, reason := "timeout" }

end Locast.Rooms
