import Locast.Rooms.Drawing
import Locast.Rooms.Membership

/-!
# Host-only commands (`rooms/permissions.rs`, `rooms/manifest.rs`)

The write sections of `PERMISSION_SET` and `MANIFEST_PUBLISH`, and the checks of a manifest that
come before its section.  Signatures, hashes and the framing of a large manifest are parameters.
-/

namespace Locast.Rooms

open Locast.Lib Locast.Protocol

/-- `userId` is the host and present: the check both commands repeat under the lock. -/
def RoomState.isPresentHost (state : RoomState) (userId : Uuid) : Bool :=
  state.participants.any fun p => p.userId == userId && p.isHost && p.status.isPresent

/-! ### `PERMISSION_SET` -/

/-- The capability set after a request; removing everything replaces the set. -/
def PermissionSetPayload.newCapSet (payload : PermissionSetPayload) (old : BitVec 32) : BitVec 32 :=
  if payload.removeCapSet = BitVec.allOnes 32 then payload.addCapSet
  else (old &&& ~~~payload.removeCapSet) ||| payload.addCapSet

/-- The write section of `handle_permission_set_payload`. -/
def permissionSetLocked (state : RoomState) (store : Store) (caller : Uuid)
    (payload : PermissionSetPayload) :
    Except RoomError CapabilityUpdated × RoomState × Store :=
  if !state.isPresentHost caller then (.error .notHost, state, store)
  else match state.liveRecord payload.targetUserId with
  | none =>
    (.error (.internal "PERMISSION_SET: target is not a room participant"), state, store)
  | some target =>
    let capSet := PermissionSetPayload.newCapSet payload target.capSet
    match store.exec (.updateParticipantCapSet state.id payload.targetUserId capSet) with
    | (.error e, store) => (.error (.internal e), state, store)
    | (.ok (), store) =>
      let participants :=
        updateFirst (fun p => p.userId == payload.targetUserId && p.status ≠ .left)
          (fun p => { p with capSet }) state.participants
      (.ok { targetUserId := payload.targetUserId, capSet }, { state with participants }, store)

/-! ### `MANIFEST_PUBLISH` -/

/-- The registry's copy of a room's latest manifest. -/
structure CachedManifest where
  version : ℤ
  manifest : MediaManifest
  hostUserId : Uuid
  publishedAtMs : ℤ
  manifestHash : Vector UInt8 32
  deriving DecidableEq

/-- What the server uses of the crates under it. -/
structure Crates where
  /-- `verify_manifest`. -/
  verifyManifest : MediaManifest → Bool
  /-- `ed25519::from_base64`. -/
  fromBase64 : String → Option (List UInt8)
  /-- `Uuid::to_string`. -/
  uuidToString : Uuid → String
  /-- BLAKE3 of the canonical bytes, or the serializer's error. -/
  manifestHash : MediaManifest → Except String (Vector UInt8 32)
  /-- `split_for_wire` for a broadcast. -/
  splitPublished : SplitForWire
  /-- `split_for_wire` for a reply. -/
  splitResponse : SplitForWire
  verifyStroke : VerifyStroke
  /-- The Ed25519 check of a signal. -/
  verifySignal : PubKey → SignalPayload → List UInt8 → Bool

/-- `signer_public_key`. -/
def signerPublicKey (crates : Crates) (manifest : MediaManifest) : Except RoomError (List UInt8) :=
  match manifest.hostSignature with
  | none => .error .invalidState
  | some sig =>
    match crates.fromBase64 sig.publicKey with
    | none => .error .invalidState
    | some bytes => if bytes.length = 32 then .ok bytes else .error .invalidState

/-- The checks of `handle_manifest_publish` before it takes the lock. -/
def manifestRefusal (crates : Crates) (roomId : Uuid) (pubkey : PubKey) (manifest : MediaManifest) :
    Option RoomError :=
  if !crates.verifyManifest manifest then some .invalidState
  else if manifest.roomId ≠ crates.uuidToString roomId then some .invalidState
  else match signerPublicKey crates manifest with
  | .error e => some e
  | .ok signer => if signer ≠ pubkey.toList then some .invalidState else none

/-- `userId` is the host, present, and its record carries the session's key. -/
def RoomState.isPublishingHost (state : RoomState) (userId : Uuid) (pubkey : PubKey) : Bool :=
  state.participants.any fun p =>
    p.userId == userId && p.isHost && p.pubkey = pubkey && p.status.isPresent

/-- `MANIFEST_VERSIONS_KEPT`. -/
def manifestVersionsKept : ℤ := 5

/-- The write section of `handle_manifest_publish`: the manifest to cache and publish, if any. -/
def manifestPublishLocked (crates : Crates) (state : RoomState) (store : Store) (userId : Uuid)
    (pubkey : PubKey) (manifest : MediaManifest) (clockMs : ℤ) :
    Except RoomError CachedManifest × Store :=
  if state.state = .ended then (.error .roomClosed, store)
  else if !state.isPublishingHost userId pubkey then (.error .notHost, store)
  else match crates.manifestHash manifest with
  | .error e => (.error (.internal e), store)
  | .ok manifestHash =>
    match store.query fun db => db.latestRoomManifest state.id with
    | (.error e, store) => (.error (.internal ("get_latest_room_manifest: " ++ e)), store)
    | (.ok latest, store) =>
      let version := match latest with
        | some row => row.version + 1
        | none => 1
      let row : RoomManifestRow :=
        { version, createdAt := clockMs, manifest, manifestHash, hostUserId := userId }
      match store.exec (.insertRoomManifest state.id row) with
      | (.error e, store) => (.error (.internal ("insert_room_manifest: " ++ e)), store)
      | (.ok (), store) =>
        let pruned := (store.exec (.pruneRoomManifests state.id manifestVersionsKept)).2
        (.ok { version, manifest, hostUserId := userId, publishedAtMs := clockMs, manifestHash },
          pruned)

/-- The event of a published manifest. -/
def CachedManifest.event (roomId : Uuid) (c : CachedManifest) : RoomEvent :=
  .manifestPublished roomId c.manifest c.version c.publishedAtMs

end Locast.Rooms
