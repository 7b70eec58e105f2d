import Locast.Rooms.Publication
import Locast.Server.Frame

/-!
# Starting the server (`rehydrate_rooms`, `RoomRegistry::rehydrate`)

The registry a server starts with is built from the database: one room for each open row of `rooms`,
with the participants that had not left and the latest manifest in the cache.  The reads of the boot
are all served.
-/

namespace Locast.Rooms

open Locast.Lib Locast.Protocol

/-- `list_open_rooms`. -/
def Db.openRooms (db : Db) : List RoomRow :=
  (db.rooms.vals.filter fun row => row.state = .open).mergeSort fun a b => a.createdMs ≤ b.createdMs

/-- `list_room_participants`: each row with its user. -/
def Db.roomParticipants (db : Db) (roomId : Uuid) : List (Uuid × RoomParticipantRow) :=
  let rows := db.participants.entries.filter fun e => e.1.1 = roomId && e.2.status ≠ .left
  (rows.map fun e => (e.1.2, e.2)).mergeSort fun a b =>
    a.2.joinedMs < b.2.joinedMs || (a.2.joinedMs = b.2.joinedMs && a.1 ≤ b.1)

/-- The host's status after a boot. -/
def RoomRow.hostStatus (row : RoomRow) : ParticipantStatus :=
  if row.hostDisconnectDeadlineMs.isSome then .reconnecting else .connected

/-- The record of a participant's row. -/
def RoomParticipantRow.record (room : RoomRow) (userId : Uuid) (p : RoomParticipantRow) :
    ParticipantRecord where
  userId := userId
  pubkey := p.pubkey
  displayName := p.displayName
  joinedMs := p.joinedMs
  status := if p.isHost then room.hostStatus else .disconnected
  lastSeenMs := p.joinedMs
  isHost := p.isHost
  capSet := p.capSet

/-- The room of a row; a room without a host row gets one from the room's own columns. -/
def RoomRow.rehydrated (room : RoomRow) (participants : List (Uuid × RoomParticipantRow))
    (wallMs : ℕ) : RoomState :=
  let rebuilt := (participants.filter fun p => p.2.status ≠ .left).map fun p => p.2.record room p.1
  let synthesized : ParticipantRecord :=
    { userId := room.hostUserId, pubkey := room.hostPubkey, displayName := "",
      joinedMs := room.createdMs, status := room.hostStatus, lastSeenMs := room.createdMs,
      isHost := true, capSet := Cap.host }
  { id := room.id
    code := room.code
    title := room.title
    hostUserId := room.hostUserId
    hostPubkey := room.hostPubkey
    hostMigrationEnabled := room.hostMigrationEnabled
    createdMs := room.createdMs
    state := .open
    hostDisconnectDeadlineMs := room.hostDisconnectDeadlineMs
    participants := if rebuilt.any (·.isHost) then rebuilt else rebuilt ++ [synthesized]
    playback := .empty
    drawing := .new wallMs }

/-- What the schema promises of a database: rows are keyed by their id, and manifests belong to a
row. -/
structure Db.Sound (db : Db) : Prop where
  keyed : ∀ id row, db.rooms.get id = some row → row.id = id
  referenced : ∀ id, db.codeOf id = none → db.latestRoomManifest id = none

end Locast.Rooms

namespace Locast.Server

open Locast.Lib Locast.Protocol Locast.Rooms

/-- `RoomRegistry::rehydrate` on an open row. -/
def ServerState.rehydrate (st : ServerState) (row : RoomRow) (wallMs : ℕ) : ServerState :=
  let st' := st.install (row.rehydrated (st.db.roomParticipants row.id) wallMs)
  match st.db.latestRoomManifest row.id with
  | none => st'
  | some m => { st' with manifestCache := st'.manifestCache.insert row.id m.cached }

/-- `rehydrate_rooms`.  `wallMs` is the wall clock each room's drawing reads. -/
def boot (db : Db) (wallMs : Uuid → ℕ) : ServerState :=
  db.openRooms.foldl (fun st row => st.rehydrate row (wallMs row.id))
    { ServerState.empty with db, issued := db.rooms.keys }

/-! ### The registry after a boot -/

/-- What a boot promises of `R`: an open room with its channel and the latest manifest in the cache,
or nothing. -/
structure ServerState.Restored (st : ServerState) (R : Uuid) : Prop where
  running : ∀ s, st.heap.get R = some s → s.state = .open
  row : (st.heap.get R).isSome → st.db.codeOf R ≠ none
  byId : R ∈ st.byId ↔ (st.heap.get R).isSome
  channel : (st.tx.get R).isSome ↔ (st.heap.get R).isSome
  cache : st.manifestCache.get R = if (st.heap.get R).isSome then
    (st.db.latestRoomManifest R).map RoomManifestRow.cached else none
  held : R ∉ st.held

variable {st : ServerState} {R : Uuid} {db : Db}

@[simp] lemma rehydrate_db (st : ServerState) (row : RoomRow) (wallMs : ℕ) :
    (st.rehydrate row wallMs).db = st.db := by
  unfold ServerState.rehydrate
  dsimp only
  split <;> rfl

lemma ServerState.Restored.rehydrate (h : st.Restored R) {row : RoomRow} (wallMs : ℕ)
    (hrow : st.db.codeOf row.id ≠ none) : (st.rehydrate row wallMs).Restored R := by
  have hid : (row.rehydrated (st.db.roomParticipants row.id) wallMs).id = row.id := rfl
  have hst : st.rehydrate row wallMs =
      { st.install (row.rehydrated (st.db.roomParticipants row.id) wallMs) with
        manifestCache := (st.rehydrate row wallMs).manifestCache } := by
    unfold ServerState.rehydrate
    dsimp only
    split <;> rfl
  have hcache : (st.rehydrate row wallMs).manifestCache.get R = if R = row.id then
      ((st.db.latestRoomManifest R).map RoomManifestRow.cached).or (st.manifestCache.get R)
      else st.manifestCache.get R := by
    unfold ServerState.rehydrate
    by_cases hR : R = row.id
    · subst hR
      cases st.db.latestRoomManifest row.id <;> simp
    · cases st.db.latestRoomManifest row.id <;> simp [AList.get_insert, hR]
  have hbyId : (st.rehydrate row wallMs).byId = st.byId ++ [row.id] := by rw [hst]; rfl
  have hheld : R ∉ (st.rehydrate row wallMs).held := by rw [hst]; exact h.held
  by_cases hR : R = row.id
  · subst hR
    refine ⟨fun s hs => ?_, fun _ => by simpa using hrow, ?_, ?_, ?_, hheld⟩
    · rw [hst] at hs
      simp only [ServerState.install_heap, Heap.get_put, hid, if_true] at hs
      cases hs
      rfl
    · rw [hbyId, hst]
      simp [hid]
    · rw [hst]
      simp [hid, ServerState.install_tx]
    · have hsome : ((st.rehydrate row wallMs).heap.get row.id).isSome = true := by
        rw [hst]
        simp [hid]
      rw [hcache, if_pos rfl, if_pos hsome, rehydrate_db, h.cache]
      split <;> simp
  · have hheap : (st.rehydrate row wallMs).heap.get R = st.heap.get R := by
      rw [hst]
      simp [hid, hR]
    refine ⟨?_, ?_, ?_, ?_, ?_, hheld⟩
    · simpa only [hheap] using h.running
    · simpa only [hheap, rehydrate_db] using h.row
    · rw [hheap, ← h.byId, hbyId]
      simp [hR]
    · rw [hheap, ← h.channel, hst]
      simp [hid, hR, ServerState.install_tx]
    · rw [hcache, if_neg hR, hheap, rehydrate_db, h.cache]

/-- **A boot restores every room.** -/
theorem boot_restored (hdb : db.Sound) (wallMs : Uuid → ℕ) (R : Uuid) :
    (boot db wallMs).Restored R ∧ (boot db wallMs).db = db := by
  have hrows : ∀ row ∈ db.openRooms, db.codeOf row.id ≠ none := by
    intro row hrow
    have hmem : row ∈ db.rooms.vals :=
      (List.mem_filter.1 (List.mem_mergeSort.1 hrow)).1
    obtain ⟨id, hid⟩ := AList.mem_vals.1 hmem
    rw [hdb.keyed id row hid]
    simp [Db.codeOf, hid]
  have hfold (rows : List RoomRow) (h : ∀ row ∈ rows, db.codeOf row.id ≠ none) (st : ServerState)
      (hst : st.db = db) (hr : st.Restored R) :
      (rows.foldl (fun st row => st.rehydrate row (wallMs row.id)) st).Restored R ∧
        (rows.foldl (fun st row => st.rehydrate row (wallMs row.id)) st).db = db := by
    induction rows generalizing st with
    | nil => exact ⟨hr, hst⟩
    | cons row rows ih =>
      refine ih (fun r hr => h r (List.mem_cons_of_mem _ hr)) _ (by simpa using hst) ?_
      exact hr.rehydrate _ (by rw [hst]; exact h row List.mem_cons_self)
  refine hfold _ hrows _ rfl ⟨?_, ?_, ?_, ?_, ?_, ?_⟩ <;> simp [ServerState.empty]

end Locast.Server
