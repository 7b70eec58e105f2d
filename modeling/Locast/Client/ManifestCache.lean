import Locast.Client.ManifestTrust
import Locast.Lib.AssocMap
import Locast.Lib.Least
import Locast.Lib.Past

/-!
# The cache of verified manifests (`net/room.rs`, `accept_manifest`)

Any number of calls accept manifests at once: broadcasts, reassembled parts and answers to a fetch
all end in `accept_manifest`, which takes one lock after another.  The version of a room and the
manifest of the room are written in two sections.
-/

namespace Locast.Client

open Locast.Lib Locast.Protocol

/-! ### State -/

/-- A row of `room_manifests`. -/
structure ManifestRow where
  roomId : Uuid
  createdAt : ℤ
  media : List MediaEntry
  subtitles : List SubtitleEntry
  version : ℤ
  deriving DecidableEq

/-- `room_manifests`, with its unique key. -/
structure ManifestTable where
  rows : List ManifestRow
  unique : (rows.map fun row => (row.roomId, row.version)).Nodup

structure ManifestStateEvent where
  roomId : Uuid
  manifestHash : String
  version : ℤ

structure ManifestCache where
  expectedHostPubkey : Option PubKey
  currentVersions : AMap Uuid ℤ
  verifiedManifests : AMap Uuid MediaManifest
  table : ManifestTable

/-- A row of this room and version. -/
def ManifestTable.taken (t : ManifestTable) (room : Uuid) (version : ℤ) : Bool :=
  t.rows.any fun row => row.roomId == room && row.version == version

/-- `get_latest`. -/
def ManifestTable.latest (t : ManifestTable) (room : Uuid) : Option ManifestRow :=
  least (fun row row' => decide (row'.version < row.version))
    (t.rows.filter fun row => row.roomId == room)

lemma ManifestTable.taken_eq_false {t : ManifestTable} {row : ManifestRow}
    (h : t.taken row.roomId row.version = false) :
    ((t.rows ++ [row]).map fun row => (row.roomId, row.version)).Nodup := by
  rw [List.map_append, List.nodup_append]
  refine ⟨t.unique, List.nodup_singleton _, fun key hkey key' hkey' => ?_⟩
  obtain ⟨row', hrow', rfl⟩ := List.mem_map.1 hkey
  obtain rfl := List.mem_singleton.1 hkey'
  intro heq
  obtain ⟨hroom, hversion⟩ := Prod.mk.inj heq
  simp only [taken, List.any_eq_false, Bool.and_eq_true, beq_iff_eq, not_and] at h
  exact h row' hrow' hroom hversion

/-- `ManifestStore::upsert`: the row's id is new, so only a row of its room and version is in its
way. -/
def ManifestTable.upsert (t : ManifestTable) (row : ManifestRow) : ManifestTable :=
  if h : t.taken row.roomId row.version = false then ⟨t.rows ++ [row], taken_eq_false h⟩ else t

/-! ### Sections -/

/-- What a call does to what it shares with the others, one lock at a time. -/
inductive CacheEffect where
  | readAnchor
  | setAnchor (key : Option PubKey)
  | claimVersion (room : Uuid) (version : ℤ)
  | cache (room : Uuid) (m : MediaManifest)
  | persist (row : ManifestRow)
  | emit (ev : ManifestStateEvent)

/-- The claim of a version is answered by the one that is in its way. -/
def CacheEffect.Reply : CacheEffect → Type
  | .readAnchor => Option PubKey
  | .claimVersion _ _ => Option ℤ
  | _ => Unit

/-- Whether the local database takes a write: there is a pool, and the statement does not fail but
for a row in its way. -/
inductive Disk where
  | up
  | down
  deriving DecidableEq

def CacheEffect.handle : (e : CacheEffect) → Disk → ManifestCache → Option (e.Reply × ManifestCache)
  | .readAnchor, _, s => some (s.expectedHostPubkey, s)
  | .setAnchor key, _, s => some ((), { s with expectedHostPubkey := key })
  | .claimVersion room version, _, s =>
    match s.currentVersions.get room with
    | some prev =>
      if version < prev then some (some prev, s)
      else some (none, { s with currentVersions := s.currentVersions.insert room version })
    | none => some (none, { s with currentVersions := s.currentVersions.insert room version })
  | .cache room m, _, s =>
    some ((), { s with verifiedManifests := s.verifiedManifests.insert room m })
  | .persist row, .up, s => some ((), { s with table := s.table.upsert row })
  | .persist _, .down, s => some ((), s)
  | .emit _, _, s => some ((), s)

/-! ### Calls -/

inductive CacheOp where
  | accept (m : MediaManifest) (incomingVersion publishedAtMs : ℤ)
  | anchor (key : Option PubKey)

abbrev CacheProg (α : Type) : Type := Prog CacheEffect CacheEffect.Reply α

/-- `accept_manifest`. -/
def acceptManifest (crates : ClientCrates) (m : MediaManifest) (incomingVersion publishedAtMs : ℤ) :
    CacheProg (Except ManifestAcceptError Uuid) :=
  match crates.examine m with
  | .error e => pure (.error e)
  | .ok (room, key) => do
    let anchor ← Prog.perform CacheEffect.readAnchor
    match crates.vouch anchor m key with
    | .error e => pure (.error e)
    | .ok hash => do
      let stale ← Prog.perform (CacheEffect.claimVersion room incomingVersion)
      match stale with
      | some cached => pure (.error (.staleVersion incomingVersion cached))
      | none => do
        let _ ← Prog.perform (CacheEffect.cache room m)
        let _ ← Prog.perform
          (CacheEffect.persist ⟨room, publishedAtMs, m.media, m.subtitles, incomingVersion⟩)
        let _ ← Prog.perform (CacheEffect.emit ⟨room, hash, incomingVersion⟩)
        pure (.ok room)

/-- The calls that run at once.  Anything else may put another anchor in place. -/
def cacheSystem (crates : ClientCrates) :
    System CacheEffect CacheEffect.Reply CacheOp
      (Except ManifestAcceptError Uuid) ManifestCache Disk where
  program
    | .accept m incomingVersion publishedAtMs =>
      acceptManifest crates m incomingVersion publishedAtMs
    | .anchor key => do
      let _ ← Prog.perform (CacheEffect.setAnchor key)
      pure (.ok 0)
  handle := CacheEffect.handle

/-- A client that has just started, over the table its earlier runs left. -/
def ManifestCache.fresh (table : ManifestTable) : ManifestCache where
  expectedHostPubkey := none
  currentVersions := ∅
  verifiedManifests := ∅
  table := table

/-! ### What the cache promises -/

abbrev CacheHistory : Type := List (Did CacheEffect.Reply CacheOp ManifestCache Disk)

/-- A call has accepted the manifest for the room under this version. -/
def Accepted (h : CacheHistory) (room : Uuid) (version : ℤ) (m : MediaManifest) : Prop :=
  ∃ d ∈ h, ∃ publishedAtMs, d.op = .accept m version publishedAtMs ∧
    System.Did.record d = ⟨.claimVersion room version, none⟩

/-- A call has found the manifest signed with the anchor that was installed then. -/
def Anchored (crates : ClientCrates) (h : CacheHistory) (m : MediaManifest) : Prop :=
  ∃ key, crates.SignedBy key m ∧ ∃ d ∈ h, ∃ version publishedAtMs,
    d.op = .accept m version publishedAtMs ∧ System.Did.record d = ⟨.readAnchor, some key⟩

/-- **What the cache promises** at any moment. -/
structure CacheFaithful (crates : ClientCrates) (h : CacheHistory) (s : ManifestCache) : Prop where
  /-- The cached manifest was accepted with the version that is reported. -/
  versioned : ∀ room m, s.verifiedManifests.get room = some m →
    ∃ version, s.currentVersions.get room = some version ∧ Accepted h room version m
  /-- A version denotes one manifest. -/
  one : ∀ room version m m', Accepted h room version m → Accepted h room version m' → m = m'
  /-- A cached manifest names its room and is signed with the anchor. -/
  signed : ∀ room m, s.verifiedManifests.get room = some m →
    crates.parseUuid m.roomId = .ok room ∧ Anchored crates h m

/-- Before each step and at the end. -/
def Throughout (P : CacheHistory → ManifestCache → Prop) (h : CacheHistory) (s : ManifestCache) :
    Prop :=
  (∀ pre d post, h = pre ++ d :: post → P pre d.before) ∧ P h s

/-- No step takes a version back. -/
def VersionsGrow (h : CacheHistory) : Prop :=
  ∀ d ∈ h, ∀ room version, d.before.currentVersions.get room = some version →
    ∃ version', d.after.currentVersions.get room = some version' ∧ version ≤ version'

/-- The latest row is the manifest that is cached, under the version that is reported. -/
def Persisted (s : ManifestCache) : Prop :=
  ∀ room m, s.verifiedManifests.get room = some m → ∃ row, s.table.latest room = some row ∧
    s.currentVersions.get room = some row.version ∧ row.media = m.media ∧
      row.subtitles = m.subtitles

/-! ### When it keeps the promise -/

/-- What is accepted for a room is one manifest, under any versions. -/
def OneManifest (h : CacheHistory) : Prop :=
  ∀ room version version' m m', Accepted h room version m → Accepted h room version' m' → m = m'

/-- A row from an earlier run is below what is accepted, or says the same. -/
def Superseded (table : ManifestTable) (h : CacheHistory) : Prop :=
  ∀ row ∈ table.rows, ∀ version m, Accepted h row.roomId version m →
    ∃ version', Accepted h row.roomId version' m ∧ (row.version < version' ∨
      row.version = version' ∧ row.media = m.media ∧ row.subtitles = m.subtitles)

/-- The database took a write of what is accepted, at that version or above, or has such a row. -/
def Stored (table : ManifestTable) (h : CacheHistory) : Prop :=
  ∀ room version m, Accepted h room version m →
    ∃ version' m', version ≤ version' ∧ Accepted h room version' m' ∧
      ((∃ d ∈ h, d.inp = .up ∧ ∃ row, d.effect = .persist row ∧ row.roomId = room ∧
          row.version = version') ∨ table.taken room version' = true)

end Locast.Client
