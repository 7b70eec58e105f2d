import Locast.Server.State

/-!
# The registry's operations (`rooms/registry.rs`)

Each operation as a program, one step for each lock it takes, for each store call and for each
publish.  The read lock on `by_id` that a scan holds is not modelled: every interleaving of the
source is one of the programs.
-/

namespace Locast.Server

open Locast.Lib Locast.Protocol Locast.Rooms

/-- A task of the server. -/
abbrev Proc (α : Type) : Type := Prog Effect Effect.Resp α

namespace Proc

open Prog

/-! ### Steps -/

def clock : Proc ℤ := .op .clock .ret
def wallClock : Proc ℕ := .op .wallClock .ret
def newId : Proc Uuid := .op .newId .ret
def newCode : Proc String := .op .newCode .ret
def rooms : Proc (List Uuid) := .op .rooms .ret
def isRegistered (id : Uuid) : Proc Bool := .op (.isRegistered id) .ret
def codeLookup (code : String) : Proc (Option Uuid) := .op (.codeLookup code) .ret
def read (id : Uuid) : Proc RoomState := .op (.read id) .ret
def locked (id : Uuid) (sec : Section) : Proc sec.Reply := .op (.section id sec) .ret
def currentManifest (id : Uuid) : Proc (Option CachedManifest) := .op (.currentManifest id) .ret
def codeTaken (code : String) : Proc (Except String Bool) := .op (.codeTaken code) .ret
def store (request : StoreRequest) : Proc (Except String Unit) := .op (.store request) .ret
def publish (id : Uuid) (item : BroadcastItem) : Proc Unit := .op (.publish id item) .ret
def putManifest (id : Uuid) (c : CachedManifest) : Proc Unit := .op (.putManifest id c) .ret
def publishManifest (id : Uuid) (c : CachedManifest) : Proc Unit :=
  .op (.publishManifest id c) .ret
def insertRoom (s : RoomState) : Proc Unit := .op (.insertRoom s) .ret
def insertCode (code : String) (id : Uuid) : Proc Unit := .op (.insertCode code id) .ret
def insertChannel (id : Uuid) : Proc Unit := .op (.insertChannel id) .ret
def removeFrom (map : RegistryMap) (id : Uuid) : Proc Bool := .op (.remove map id) .ret
def relay (toUserId : Uuid) : Proc Bool := .op (.relay toUserId) .ret

/-! ### Creating and joining -/

/-- The code loop of `create`, with the tries it has left. -/
def pickCode : ℕ → Proc (Except RoomError String)
  | 0 => pure (.error (.internal "code collision"))
  | n + 1 => do
    let candidate ← newCode
    let holder ← codeLookup candidate
    if holder.isSome then pickCode n
    else do
      let taken ← codeTaken candidate
      match taken with
      | .error e => pure (.error (.internal ("room_code_taken: " ++ e)))
      | .ok true => pickCode n
      | .ok false => pure (.ok candidate)

/-- `MAX_COLLISIONS`. -/
def maxCollisions : ℕ := 5

def create (title : String) (hostUserId : Uuid) (hostPubkey : PubKey) (hostMigrationEnabled : Bool)
    (nowMs : ℤ) : Proc (Except RoomError (RoomSummary × ParticipantSelf)) := do
  let picked ← pickCode (maxCollisions + 1)
  match picked with
  | .error e => pure (.error e)
  | .ok code => do
    let id ← newId
    let inserted ←
      store (.insertRoom id code title hostUserId hostPubkey hostMigrationEnabled nowMs)
    match inserted with
    | .error e => pure (.error (.internal ("insert_room: " ++ e)))
    | .ok () => do
      let added ← store (.addRoomParticipant id hostUserId hostPubkey "" true nowMs Cap.host)
      match added with
      | .error e => pure (.error (.internal ("add_room_participant: " ++ e)))
      | .ok () => do
        let wallMs ← wallClock
        let s := RoomState.new id code title hostUserId hostPubkey hostMigrationEnabled nowMs
          Cap.host wallMs
        match s.selfView hostUserId with
        | none => pure (.error (.internal "host always present after create"))
        | some you => do
          insertRoom s
          insertCode code id
          insertChannel id
          pure (.ok (s.snapshot, you))

def join (code : String) (userId : Uuid) (pubkey : PubKey) (displayName : String) (nowMs : ℤ) :
    Proc (Except RoomError (RoomJoinedPayload × RoomEvent)) := do
  let found ← codeLookup code
  match found with
  | none => pure (.error .roomNotFound)
  | some id => do
    let registered ← isRegistered id
    if !registered then pure (.error .roomNotFound)
    else do
      let joined ← locked id (.join userId pubkey displayName nowMs)
      match joined with
      | .error e => pure (.error e)
      | .ok (payload, event) => do
        publish id (eventToBroadcastItem event id (some userId))
        pure (.ok (payload, event))

/-! ### Leaving -/

/-- `remove_room`.  The handle is read for the room's code. -/
def removeRoom (id : Uuid) : Proc Unit := do
  let found ← removeFrom .byId id
  if found then do
    let _ ← read id
    let _ ← removeFrom .channel id
    let _ ← removeFrom .manifestCache id
    pure ()
  else do
    let _ ← removeFrom .manifestCache id
    pure ()

/-- The scan of `leave_room`: the first room, the wanted one if one is wanted, that `userId` is
in. -/
def findRoomOf (userId : Uuid) (wanted : Option Uuid) : List Uuid → Proc (Option Uuid)
  | [] => pure none
  | id :: ids =>
    if wanted.any (· ≠ id) then findRoomOf userId wanted ids
    else do
      let s ← read id
      if s.isMember userId then pure (some id) else findRoomOf userId wanted ids

/-- The publishes of `leave_room`. -/
def announceLeave (id userId : Uuid) : List RoomEvent → Proc Unit :=
  forEach fun e => publish id (eventToBroadcastItem e id (some userId))

def leaveRoom (userId : Uuid) (roomId : Option Uuid) (intentional : Bool) (nowMs : ℤ) :
    Proc (Except RoomError (List RoomEvent × Option RoomSummary)) := do
  let ids ← rooms
  let found ← findRoomOf userId roomId ids
  match found with
  | none => pure (.error .notJoined)
  | some id => do
    let left ← locked id (.leave userId intentional nowMs)
    match left with
    | none => pure (.error .notJoined)
    | some reply => do
      announceLeave id userId reply.events
      if reply.ended then do
        removeRoom id
        pure (.ok (reply.events, none))
      else do
        let s ← read id
        pure (.ok (reply.events, some s.snapshot))

/-! ### Transports -/

/-- `rooms_of_user`, on the rooms of a scan. -/
def roomsWithMember (userId : Uuid) : List Uuid → Proc (List Uuid)
  | [] => pure []
  | id :: ids => do
    let s ← read id
    let rest ← roomsWithMember userId ids
    pure (if s.isMember userId then id :: rest else rest)

/-- The host record is `userId`'s. -/
def isHostUser (s : RoomState) (userId : Uuid) : Bool := s.host.any fun h => h.userId == userId

def connectionLostInRoom (userId : Uuid) (nowMs : ℤ) (id : Uuid) :
    Proc (Except RoomError (List RoomEvent)) := do
  let s ← read id
  if isHostUser s userId then do
    let left ← leaveRoom userId (some id) false nowMs
    match left with
    | .error e => pure (.error e)
    | .ok out => pure (.ok out.1)
  else do
    let updated ← store (.updateParticipantStatus id userId .disconnected nowMs)
    match updated with
    | .error e => pure (.error (.internal ("update_participant_status: " ++ e)))
    | .ok () => do
      locked id (.connectionLost userId nowMs)
      pure (.ok [])

/-- The events of every room, or the first error when there are none. -/
def gather (results : List (Except RoomError (List RoomEvent))) :
    Except RoomError (List RoomEvent) :=
  let events := results.flatMap fun r => (r.toOption).getD []
  let errors := results.filterMap fun r => match r with
    | .error e => some e
    | .ok _ => none
  match errors with
  | e :: _ => if events.isEmpty then .error e else .ok events
  | [] => .ok events

def onConnectionLost (userId : Uuid) (nowMs : ℤ) : Proc (Except RoomError (List RoomEvent)) := do
  let ids ← rooms
  let mine ← roomsWithMember userId ids
  if mine.isEmpty then pure (.error .notJoined)
  else do
    let results ← collect (connectionLostInRoom userId nowMs) mine
    pure (gather results)

def rejoinInRoom (userId : Uuid) (pubkey : PubKey) (nowMs : ℤ) (id : Uuid) :
    Proc (Except RoomError (List RoomEvent)) := do
  let s ← read id
  let isHost := isHostUser s userId
  let s ← read id
  let wasInGrace := s.hostDisconnectDeadlineMs.isSome
  if isHost && wasInGrace then do
    let cleared ← store (.setHostDisconnectDeadline id none)
    match cleared with
    | .error e => pure (.error (.internal ("set_host_disconnect_deadline: " ++ e)))
    | .ok () => do
      let s ← read id
      match s.host with
      -- the source panics here
      | none => pure (.error (.internal "host present"))
      | some h => do
        let added ←
          store (.addRoomParticipant id userId pubkey h.displayName true h.joinedMs h.capSet)
        match added with
        | .error e => pure (.error (.internal ("add_room_participant: " ++ e)))
        | .ok () => do
          locked id (.rejoinHost userId pubkey nowMs)
          let event : RoomEvent := .hostReconnected userId
          publish id (eventToBroadcastItem event id (some userId))
          pure (.ok [event])
  else do
    let updated ← store (.updateParticipantStatus id userId .connected nowMs)
    match updated with
    | .error e => pure (.error (.internal ("update_participant_status: " ++ e)))
    | .ok () => do
      locked id (.rejoin userId pubkey nowMs)
      pure (.ok [])

def rejoin (userId : Uuid) (pubkey : PubKey) (nowMs : ℤ) :
    Proc (Except RoomError (Option (List RoomEvent))) := do
  let ids ← rooms
  let mine ← roomsWithMember userId ids
  if mine.isEmpty then pure (.ok none)
  else do
    let results ← collect (rejoinInRoom userId pubkey nowMs) mine
    match gather results with
    | .error e => pure (.error e)
    | .ok events => pure (.ok (some events))

/-- The scan of `touch`. -/
def touchRooms (userId : Uuid) (nowMs : ℤ) : List Uuid → Proc Unit
  | [] => pure ()
  | id :: ids => do
    let s ← read id
    if (s.record userId).isNone then touchRooms userId nowMs ids
    else do
      let found : Bool ← locked id (.touch userId nowMs)
      if found then pure () else touchRooms userId nowMs ids

def touch (userId : Uuid) (nowMs : ℤ) : Proc Unit := do
  let ids ← rooms
  touchRooms userId nowMs ids

/-! ### Ticks -/

/-- A section in every room, with the rooms' replies. -/
def sweep (sec : Section) (ids : List Uuid) : Proc (List (Uuid × sec.Reply)) :=
  collect (fun id => do
    let reply ← locked id sec
    pure (id, reply)) ids

/-- `matches!(event, RoomClosed(_))`. -/
def isClosed : RoomEvent → Bool
  | .roomClosed _ => true
  | _ => false

/-- The end of a room whose grace ran out. -/
def closeRoom (nowMs : ℤ) (id : Uuid) : Proc Unit := do
  let _ ← store (.endRoom id nowMs)
  removeRoom id

def tickGrace (nowMs : ℤ) : Proc (List (Uuid × RoomEvent)) := do
  let ids ← rooms
  let replies ← sweep (.grace nowMs) ids
  let out := replies.filterMap fun r => r.2.map fun (e : RoomEvent) => (r.1, e)
  forEach (fun r => publish r.1 (eventToBroadcastItem r.2 r.1 none)) out
  forEach (closeRoom nowMs) ((out.filter fun r => isClosed r.2).map (·.1))
  pure out

/-- The announcements of a tick: the users it found, room by room. -/
def announceTimeouts : List (Uuid × Uuid) → Proc Unit :=
  forEach fun r => publish r.1 (eventToBroadcastItem (timedOut r.2) r.1 none)

/-- The pairs of room and user a sweep found. -/
def found (replies : List (Uuid × List Uuid)) : List (Uuid × Uuid) :=
  replies.flatMap fun r => r.2.map fun u => (r.1, u)

def tickPresenceTimeout (nowMs : ℤ) : Proc (List (Uuid × Uuid)) := do
  let ids ← rooms
  let replies ← sweep (.presenceTimeout nowMs) ids
  announceTimeouts (found replies)
  pure (found replies)

/-- The rooms a sweep removed somebody from, sorted and without repetition. -/
def sweptRooms (removed : List (Uuid × Uuid)) : List Uuid :=
  ((removed.map (·.1)).insertionSort (· ≤ ·)).dedup

/-- A room that is not `Ended` when its section starts is not at its end, so the list of rooms the
source would drop here is always empty. -/
def tickStaleParticipants (cfg : RoomRegistryConfig) (nowMs : ℤ) : Proc (List (Uuid × Uuid)) := do
  let ids ← rooms
  let replies ← sweep (.stale nowMs) ids
  announceTimeouts (found replies)
  let cutoff := saturatingSub nowMs cfg.participantStaleAfterMs
  forEach (fun id => do
    let _ ← store (.purgeStaleParticipants id cutoff)
    pure ()) (sweptRooms (found replies))
  pure (found replies)

end Proc

end Locast.Server
