import Locast.Rooms.State

/-!
# The durable store (`db.rs`, `rooms/store.rs`)

The tables `rooms`, `room_participants` and `room_manifests` and the statements the registry runs on
them.  A write is a `StoreRequest`; whether the database refuses it for a reason of its own is
decided by the list of faults that comes with a store.
-/

namespace Locast.Rooms

open Locast.Lib Locast.Protocol

/-! ### Tables -/

inductive RoomRowState where
  | open
  | ended
  | cancelled
  deriving DecidableEq, Repr

structure RoomRow where
  id : Uuid
  code : String
  title : String
  hostUserId : Uuid
  hostPubkey : PubKey
  hostMigrationEnabled : Bool
  state : RoomRowState
  hostDisconnectDeadlineMs : Option ℤ
  createdMs : ℤ
  endedMs : Option ℤ
  deriving DecidableEq

/-- A row of `room_participants`; its key is the room and the user. -/
structure RoomParticipantRow where
  pubkey : PubKey
  displayName : String
  isHost : Bool
  joinedMs : ℤ
  leftMs : Option ℤ
  lastSeenMs : ℤ
  status : ParticipantStatus
  capSet : BitVec 32
  deriving DecidableEq

structure RoomManifestRow where
  version : ℤ
  createdAt : ℤ
  manifest : MediaManifest
  manifestHash : Vector UInt8 32
  hostUserId : Uuid
  deriving DecidableEq

structure Db where
  rooms : AMap Uuid RoomRow
  participants : AMap (Uuid × Uuid) RoomParticipantRow
  manifests : AMap Uuid (List RoomManifestRow)

/-- An empty database. -/
def Db.empty : Db where
  rooms := ∅
  participants := ∅
  manifests := ∅

/-! ### Statements -/

inductive StoreRequest where
  | insertRoom (id : Uuid) (code title : String) (hostUserId : Uuid) (hostPubkey : PubKey)
      (hostMigrationEnabled : Bool) (createdMs : ℤ)
  | addRoomParticipant (roomId userId : Uuid) (pubkey : PubKey) (displayName : String)
      (isHost : Bool) (joinedMs : ℤ) (capSet : BitVec 32)
  | updateParticipantStatus (roomId userId : Uuid) (status : ParticipantStatus) (lastSeenMs : ℤ)
  | updateParticipantCapSet (roomId userId : Uuid) (capSet : BitVec 32)
  | endRoom (roomId : Uuid) (endedMs : ℤ)
  | setHostDisconnectDeadline (roomId : Uuid) (deadlineMs : Option ℤ)
  | purgeStaleParticipants (roomId : Uuid) (cutoffMs : ℤ)
  | insertRoomManifest (roomId : Uuid) (row : RoomManifestRow)
  | pruneRoomManifests (roomId : Uuid) (keep : ℤ)
  deriving DecidableEq

namespace Db

/-- `UPDATE room_participants SET ... WHERE room_id = ? AND user_id = ?`. -/
def updateParticipant (db : Db) (roomId userId : Uuid)
    (f : RoomParticipantRow → RoomParticipantRow) : Db :=
  match db.participants.get (roomId, userId) with
  | none => db
  | some row => { db with participants := db.participants.insert (roomId, userId) (f row) }

/-- `UPDATE rooms SET ... WHERE id = ?`. -/
def updateRoom (db : Db) (roomId : Uuid) (f : RoomRow → RoomRow) : Db :=
  match db.rooms.get roomId with
  | none => db
  | some row => { db with rooms := db.rooms.insert roomId (f row) }

/-- The rows `purge_stale_participants` deletes. -/
def isPurged (roomId : Uuid) (cutoffMs : ℤ) (key : Uuid × Uuid) (row : RoomParticipantRow) : Bool :=
  key.1 == roomId && !row.isHost && row.status ≠ .left && row.lastSeenMs < cutoffMs

def purgeStaleParticipants (db : Db) (roomId : Uuid) (cutoffMs : ℤ) : Db :=
  { db with participants := db.participants.keep fun key row => !isPurged roomId cutoffMs key row }

/-- `get_latest_room_manifest`: the row with the greatest version. -/
def latestRoomManifest (db : Db) (roomId : Uuid) : Option RoomManifestRow :=
  match db.manifests.get roomId with
  | none => none
  | some rows => least (fun a b => b.version < a.version) rows

/-- `get_room_by_code(code).is_some()`: ended rooms count. -/
def roomCodeTaken (db : Db) (code : String) : Bool := db.rooms.vals.any fun row => row.code == code

/-- One statement; the error is a violated `UNIQUE` constraint. -/
def exec (db : Db) : StoreRequest → Except String Db
  | .insertRoom id code title hostUserId hostPubkey hostMigrationEnabled createdMs =>
    if id ∈ db.rooms then .error "UNIQUE constraint failed: rooms.id"
    else if db.roomCodeTaken code then .error "UNIQUE constraint failed: rooms.code"
    else
      let row : RoomRow :=
        { id, code, title, hostUserId, hostPubkey, hostMigrationEnabled, state := .open,
          hostDisconnectDeadlineMs := none, createdMs, endedMs := none }
      .ok { db with rooms := db.rooms.insert id row }
  | .addRoomParticipant roomId userId pubkey displayName isHost joinedMs capSet =>
    let row : RoomParticipantRow :=
      { pubkey, displayName, isHost, joinedMs, leftMs := none, lastSeenMs := joinedMs,
        status := .connected, capSet }
    .ok { db with participants := db.participants.insert (roomId, userId) row }
  | .updateParticipantStatus roomId userId status lastSeenMs =>
    .ok (db.updateParticipant roomId userId fun row =>
      { row with status, lastSeenMs, leftMs :=
        if status = .left then some lastSeenMs else row.leftMs })
  | .updateParticipantCapSet roomId userId capSet =>
    .ok (db.updateParticipant roomId userId fun row => { row with capSet })
  | .endRoom roomId endedMs =>
    .ok (db.updateRoom roomId fun row => { row with state := .ended, endedMs := some endedMs })
  | .setHostDisconnectDeadline roomId deadlineMs =>
    .ok (db.updateRoom roomId fun row => { row with hostDisconnectDeadlineMs := deadlineMs })
  | .purgeStaleParticipants roomId cutoffMs => .ok (db.purgeStaleParticipants roomId cutoffMs)
  | .insertRoomManifest roomId row =>
    let rows := (db.manifests.get roomId).getD []
    if rows.any fun r => r.version == row.version then
      .error "UNIQUE constraint failed: room_manifests.room_id, room_manifests.version"
    else .ok { db with manifests := db.manifests.insert roomId (rows ++ [row]) }
  | .pruneRoomManifests roomId keep =>
    match db.latestRoomManifest roomId with
    | none => .ok db
    | some latest =>
      let rows := ((db.manifests.get roomId).getD []).filter fun r =>
        latest.version - keep < r.version
      .ok { db with manifests := db.manifests.insert roomId rows }

end Db

/-! ### Stores with faults -/

/-- A database and the errors it will answer the next calls with: `none`, or the end of the list, is
a call it serves. -/
structure Store where
  db : Db
  faults : List (Option String)

namespace Store

/-- One call: the fault set for it, or the statement. -/
def exec (store : Store) (request : StoreRequest) : Except String Unit × Store :=
  match store.faults with
  | some e :: faults => (.error e, { store with faults })
  | faults =>
    let rest := { store with faults := faults.tail }
    match store.db.exec request with
    | .error e => (.error e, rest)
    | .ok db => (.ok (), { rest with db })

/-- Calls whose errors are only logged. -/
def execAll (store : Store) : List StoreRequest → Store
  | [] => store
  | request :: requests => (store.exec request).2.execAll requests

/-- A read. -/
def query {α : Type} (store : Store) (read : Db → α) : Except String α × Store :=
  match store.faults with
  | some e :: faults => (.error e, { store with faults })
  | faults => (.ok (read store.db), { store with faults := faults.tail })

end Store

end Locast.Rooms
