import Locast.Lib.Pool
import Locast.Rooms.Section

/-!
# The server's shared state and effects (`rooms/registry.rs`)

The registry's maps, the database and the rooms behind the handles, and the steps in which tasks
read and change them.  A step is a lock section, one store call outside every room lock, or one
publish. The store calls of a section are part of its step: they await, but the rows they touch are
those of the locked room.  A handle keeps its room alive, so a removed room stays in `heap`.
-/

namespace Locast.Server

open Locast.Lib Locast.Protocol Locast.Rooms

/-! ### Rooms behind handles -/

/-- The rooms ever installed, each under its own id. -/
structure Heap where
  rooms : AMap Uuid RoomState
  id_eq : ∀ {id s}, rooms.get id = some s → s.id = id

namespace Heap

def empty : Heap where
  rooms := ∅
  id_eq h := by simp at h

/-- The room behind the handle of `id`. -/
def get (h : Heap) (id : Uuid) : Option RoomState := h.rooms.get id

/-- Stores a room under its id. -/
def put (h : Heap) (s : RoomState) : Heap where
  rooms := h.rooms.insert s.id s
  id_eq {id s'} hs := by
    rw [AList.get_insert] at hs
    split at hs
    · rename_i hid
      rw [← Option.some.inj hs, hid]
    · exact h.id_eq hs

@[simp] lemma get_empty (id : Uuid) : empty.get id = none := rfl

lemma get_id {h : Heap} {id : Uuid} {s : RoomState} (hs : h.get id = some s) : s.id = id :=
  h.id_eq hs

@[simp] lemma get_put (h : Heap) (s : RoomState) (id : Uuid) :
    (h.put s).get id = if id = s.id then some s else h.get id := AList.get_insert _ _ _ _

end Heap

/-! ### State -/

/-- `tx` holds, for each registered channel, everything sent on it so far.  `held` are the rooms
whose write lock a publication keeps after its section.  `issued` are the ids `Uuid::now_v7` gave
out. -/
structure ServerState where
  heap : Heap
  byId : List Uuid
  byCode : AMap String Uuid
  tx : AMap Uuid (List BroadcastItem)
  manifestCache : AMap Uuid CachedManifest
  db : Db
  held : List Uuid
  issued : List Uuid

/-- A server with an empty database. -/
def ServerState.empty : ServerState where
  heap := .empty
  byId := []
  byCode := ∅
  tx := ∅
  manifestCache := ∅
  db := .empty
  held := []
  issued := []

/-- What `remove_room` clears between two awaits: the handle, then the code together with the
channel, then the cached manifest. -/
inductive RegistryMap where
  | byId
  | channel
  | manifestCache
  deriving DecidableEq

namespace ServerState

/-- `publish`: nothing happens without a channel. -/
def publish (st : ServerState) (id : Uuid) (item : BroadcastItem) : ServerState :=
  match st.tx.get id with
  | none => st
  | some log => { st with tx := st.tx.insert id (log ++ [item]) }

/-- `publish` for each item in order. -/
def publishAll (st : ServerState) (items : List (Uuid × BroadcastItem)) : ServerState :=
  items.foldl (fun st i => st.publish i.1 i.2) st

/-- A new room behind its handle, in `by_id`. -/
def insertRoom (st : ServerState) (s : RoomState) : ServerState :=
  { st with heap := st.heap.put s, byId := st.byId ++ [s.id] }

/-- `by_code.insert`. -/
def insertCode (st : ServerState) (code : String) (id : Uuid) : ServerState :=
  { st with byCode := st.byCode.insert code id }

/-- A new channel in `room_tx`. -/
def insertChannel (st : ServerState) (id : Uuid) : ServerState :=
  { st with tx := st.tx.insert id [] }

/-- A room in all three maps. -/
def install (st : ServerState) (s : RoomState) : ServerState :=
  ((st.insertRoom s).insertCode s.code s.id).insertChannel s.id

/-- One removal of `remove_room`; the code is that of the room behind the handle. -/
def remove (st : ServerState) (map : RegistryMap) (id : Uuid) : ServerState :=
  match map with
  | .byId => { st with byId := st.byId.filter (· ≠ id) }
  | .channel =>
    let byCode := match st.heap.get id with
      | some s => st.byCode.erase s.code
      | none => st.byCode
    { st with byCode, tx := st.tx.erase id }
  | .manifestCache => { st with manifestCache := st.manifestCache.erase id }

/-- Whether the map has an entry for the room. -/
def holds (st : ServerState) (id : Uuid) : RegistryMap → Bool
  | .byId => id ∈ st.byId
  | .channel => (st.tx.get id).isSome
  | .manifestCache => (st.manifestCache.get id).isSome

/-- What a section leaves behind: the room, the store, its publishes and, after an accepted
publication, the lock. -/
def apply {ρ : Type} (st : ServerState) (id : Uuid) (out : SectionOutcome ρ) : ServerState :=
  { st with
    heap := st.heap.put out.state
    db := out.store.db
    held := if out.held then id :: st.held else st.held }.publishAll out.sent

/-- `put_current_manifest`. -/
def putManifest (st : ServerState) (id : Uuid) (c : CachedManifest) : ServerState :=
  { st with manifestCache := st.manifestCache.insert id c }

/-- The end of a publication: the manifest goes out and the room's lock is released. -/
def publishManifest (st : ServerState) (split : SplitForWire) (id : Uuid) (c : CachedManifest) :
    ServerState :=
  { st with held := st.held.erase id }.publishAll (publishEvents split id [c.event id])

end ServerState

/-! ### Effects -/

/-- The steps of the server's tasks. -/
inductive Effect where
  /-- `clock.now_ms()`. -/
  | clock
  /-- The wall clock of `StrokeBookkeeping::new`. -/
  | wallClock
  /-- `Uuid::now_v7()`. -/
  | newId
  /-- `codes::generate_code`. -/
  | newCode
  /-- The keys of `by_id`, in the order an iteration meets them. -/
  | rooms
  /-- `get_by_id(id).is_some()`. -/
  | isRegistered (id : Uuid)
  /-- `by_code.get(code)`. -/
  | codeLookup (code : String)
  /-- A section under the read lock of a room. -/
  | read (id : Uuid)
  /-- A section under its write lock. -/
  | section (id : Uuid) (sec : Section)
  /-- `current_manifest`. -/
  | currentManifest (id : Uuid)
  /-- `room_code_taken`. -/
  | codeTaken (code : String)
  /-- A store call outside every room lock. -/
  | store (request : StoreRequest)
  | publish (id : Uuid) (item : BroadcastItem)
  /-- `put_current_manifest`. -/
  | putManifest (id : Uuid) (c : CachedManifest)
  /-- The publish of a publication, and the release of its lock. -/
  | publishManifest (id : Uuid) (c : CachedManifest)
  /-- The insertion of `create` into `by_id`, with the room behind the handle. -/
  | insertRoom (s : RoomState)
  /-- Its insertion into `by_code`. -/
  | insertCode (code : String) (id : Uuid)
  /-- Its insertion into `room_tx`. -/
  | insertChannel (id : Uuid)
  | remove (map : RegistryMap) (id : Uuid)
  /-- `relay.send`: whether the recipient's queue took the signal. -/
  | relay (toUserId : Uuid)

/-- What an effect is answered with. -/
def Effect.Resp : Effect → Type
  | clock => ℤ
  | wallClock => ℕ
  | newId => Uuid
  | newCode => String
  | rooms => List Uuid
  | isRegistered _ => Bool
  | codeLookup _ => Option Uuid
  | read _ => RoomState
  | .section _ sec => sec.Reply
  | currentManifest _ => Option CachedManifest
  | codeTaken _ => Except String Bool
  | store _ => Except String Unit
  | publish .. | putManifest .. | publishManifest .. => Unit
  | insertRoom _ | insertCode .. | insertChannel _ => Unit
  | remove .. => Bool
  | relay _ => Bool

/-- The environment's part of a step. -/
structure Input where
  clockMs : ℤ
  wallMs : ℕ
  id : Uuid
  code : String
  order : List Uuid
  faults : List (Option String)
  delivered : Bool

/-- What never changes while the server runs. -/
structure Env where
  cfg : RoomRegistryConfig
  crates : Crates

/-- **The steps of the server.**  A step that cannot happen has no result: an id given out before,
an order that is not one of the registered rooms, a room that was never installed or whose lock a
publication holds, and a section that panics. -/
def Effect.handle (env : Env) : (e : Effect) → Input → ServerState → Option (e.Resp × ServerState)
  | clock, inp, st => some (inp.clockMs, st)
  | wallClock, inp, st => some (inp.wallMs, st)
  | newId, inp, st =>
    if inp.id ∈ st.issued then none else some (inp.id, { st with issued := inp.id :: st.issued })
  | newCode, inp, st => some (inp.code, st)
  | rooms, inp, st => if inp.order.Perm st.byId then some (inp.order, st) else none
  | isRegistered id, _, st => some (decide (id ∈ st.byId), st)
  | codeLookup code, _, st => some (st.byCode.get code, st)
  | read id, _, st =>
    if id ∈ st.held then none else (st.heap.get id).map fun s => (s, st)
  | .section id sec, inp, st =>
    match st.heap.get id with
    | none => none
    | some s => if id ∈ st.held then none else
      (sec.run ⟨env.cfg, env.crates, inp.clockMs⟩ ⟨st.db, inp.faults⟩ s).map fun out =>
        (out.reply, st.apply id out)
  | currentManifest id, _, st => some (st.manifestCache.get id, st)
  | codeTaken code, inp, st =>
    some ((Store.query ⟨st.db, inp.faults⟩ fun db => db.roomCodeTaken code).1, st)
  | store request, inp, st =>
    let out := Store.exec ⟨st.db, inp.faults⟩ request
    some (out.1, { st with db := out.2.db })
  | publish id item, _, st => some ((), st.publish id item)
  | putManifest id c, _, st => some ((), st.putManifest id c)
  | publishManifest id c, _, st =>
    some ((), st.publishManifest env.crates.splitPublished id c)
  | insertRoom s, _, st =>
    if (st.heap.get s.id).isSome then none else some ((), st.insertRoom s)
  | insertCode code id, _, st => some ((), st.insertCode code id)
  | insertChannel id, _, st => some ((), st.insertChannel id)
  | remove map id, _, st => some (st.holds id map, st.remove map id)
  | relay _, inp, st => some (inp.delivered, st)

end Locast.Server
