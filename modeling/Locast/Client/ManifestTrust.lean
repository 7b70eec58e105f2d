import Locast.Lib.Base64
import Locast.Protocol.SignedBytes

/-!
# Which manifests a client trusts (`shared/manifest/src/signing.rs`, `net/room.rs`)

A manifest is looked at in two steps: its signature is checked against the key it carries, and that
key against the one of the invite.  The curve arithmetic, the UUID parser and the hash are other
crates'.
-/

namespace Locast.Client

open Locast.Lib Locast.Protocol

/-! ### Verifying a signature -/

inductive CryptoError where
  | invalidKey
  | invalidSignature
  deriving DecidableEq

/-- What the client links: the encoders, `VerifyingKey::from_bytes` with `verify_strict`, the parser
of UUIDs and the hash. -/
structure ClientCrates where
  enc : Encoders
  verifyStrict : PubKey → List UInt8 → Signature → Except CryptoError Unit
  parseUuid : String → Except String Uuid
  blake3Hex : List UInt8 → String

/-- `ed25519::from_base64`. -/
def fromBase64 (s : String) : Except CryptoError (List UInt8) :=
  if s = "" then .error .invalidKey
  else match Base64.decode s with
    | some bytes => .ok bytes
    | none => .error .invalidKey

lemma size_toArray_of_length {n : ℕ} {bytes : List UInt8} (h : bytes.length = n) :
    bytes.toArray.size = n := by simpa using h

/-- Bytes of a fixed length. -/
def sized (n : ℕ) (bytes : List UInt8) : Option (Vector UInt8 n) :=
  if h : bytes.length = n then some ⟨bytes.toArray, size_toArray_of_length h⟩ else none

/-- `ed25519::verify`. -/
def ClientCrates.verify (crates : ClientCrates) (key : PubKey) (message : List UInt8)
    (signature : Signature) :
    Except CryptoError Unit :=
  if key.toList.all (· == 0) then .error .invalidKey else crates.verifyStrict key message signature

inductive InvalidPublicKeyReason where
  | base64Decode
  | wrongLength (length : ℕ)
  | rejectedByVerifier
  deriving DecidableEq

inductive InvalidSignatureEncodingReason where
  | base64Decode
  | wrongLength (length : ℕ)
  deriving DecidableEq

inductive VerifyError where
  | missingSignature
  | unsupportedAlgorithm (name : String)
  | invalidPublicKey (reason : InvalidPublicKeyReason)
  | invalidSignatureEncoding (reason : InvalidSignatureEncodingReason)
  | signatureMismatch
  | canonicalizationFailed
  deriving DecidableEq

def decodePublicKey (s : String) : Except VerifyError PubKey :=
  match fromBase64 s with
  | .error _ => .error (.invalidPublicKey .base64Decode)
  | .ok bytes =>
    match sized 32 bytes with
    | none => .error (.invalidPublicKey (.wrongLength bytes.length))
    | some key => .ok key

def decodeSignature (s : String) : Except VerifyError Signature :=
  match fromBase64 s with
  | .error _ => .error (.invalidSignatureEncoding .base64Decode)
  | .ok bytes =>
    match sized 64 bytes with
    | none => .error (.invalidSignatureEncoding (.wrongLength bytes.length))
    | some signature => .ok signature

/-- `verify_manifest`. -/
def ClientCrates.verifyManifest (crates : ClientCrates) (m : MediaManifest) :
    Except VerifyError Unit :=
  match m.hostSignature with
  | none => .error .missingSignature
  | some hostSig =>
    if hostSig.algorithm ≠ "ed25519" then .error (.unsupportedAlgorithm hostSig.algorithm)
    else do
      let key ← decodePublicKey hostSig.publicKey
      let signature ← decodeSignature hostSig.value
      match Canonical.serialize crates.enc m with
      | none => .error .canonicalizationFailed
      | some canonical =>
        match crates.verify key canonical signature with
        | .ok () => .ok ()
        | .error .invalidKey => .error (.invalidPublicKey .rejectedByVerifier)
        | .error .invalidSignature => .error .signatureMismatch

/-! ### Accepting a manifest -/

inductive ManifestAcceptError where
  | badSignature (e : VerifyError)
  | badRoomId (e : String)
  | badPubkeyLength (length : ℕ)
  | badPubkeyFormat
  | noHostSignature
  | noTrustAnchor
  | trustAnchorMismatch
  | canonicalize
  | staleVersion (incoming cached : ℤ)
  deriving DecidableEq

/-- What `accept_manifest` makes of a manifest on its own: the room it names and the key it is
signed with. -/
def ClientCrates.examine (crates : ClientCrates) (m : MediaManifest) :
    Except ManifestAcceptError (Uuid × PubKey) :=
  match crates.verifyManifest m with
  | .error e => .error (.badSignature e)
  | .ok () =>
    match crates.parseUuid m.roomId with
    | .error e => .error (.badRoomId e)
    | .ok room =>
      match m.hostSignature with
      | none => .error .noHostSignature
      | some hs =>
        match fromBase64 hs.publicKey with
        | .error _ => .error .badPubkeyFormat
        | .ok bytes =>
          match sized 32 bytes with
          | none => .error (.badPubkeyLength bytes.length)
          | some key => .ok (room, key)

/-- The comparison with the anchor, and the hash of what was signed. -/
def ClientCrates.vouch (crates : ClientCrates) (anchor : Option PubKey) (m : MediaManifest)
    (key : PubKey) :
    Except ManifestAcceptError String :=
  match anchor with
  | none => .error .noTrustAnchor
  | some expected =>
    if key ≠ expected then .error .trustAnchorMismatch
    else match Canonical.serialize crates.enc m with
      | none => .error .canonicalize
      | some canonical => .ok (crates.blake3Hex canonical)

/-! ### What acceptance says -/

/-- The manifest carries a signature of its canonical bytes under this key. -/
def ClientCrates.SignedBy (crates : ClientCrates) (key : PubKey) (m : MediaManifest) : Prop :=
  ∃ hs signature canonical, m.hostSignature = some hs ∧ decodePublicKey hs.publicKey = .ok key ∧
    decodeSignature hs.value = .ok signature ∧ Canonical.serialize crates.enc m = some canonical ∧
      crates.verify key canonical signature = .ok ()

variable {crates : ClientCrates} {m : MediaManifest} {room : Uuid} {key : PubKey}

lemma exists_signedBy (h : crates.verifyManifest m = .ok ()) :
    ∃ key, crates.SignedBy key m := by
  unfold ClientCrates.verifyManifest at h
  cases hhost : m.hostSignature with
  | none => simp [hhost] at h
  | some hs =>
    simp only [hhost] at h
    split at h
    · cases h
    cases hkey : decodePublicKey hs.publicKey with
    | error e => simp [hkey, bind, Except.bind] at h
    | ok key =>
      cases hsignature : decodeSignature hs.value with
      | error e => simp [hkey, hsignature, bind, Except.bind] at h
      | ok signature =>
        simp only [hkey, hsignature, bind, Except.bind] at h
        cases hcanonical : Canonical.serialize crates.enc m with
        | none => simp [hcanonical] at h
        | some canonical =>
          simp only [hcanonical] at h
          cases hverify : crates.verify key canonical signature with
          | error e => cases e <;> simp [hverify] at h
          | ok u =>
            exact ⟨key, hs, signature, canonical, hhost, hkey, hsignature, hcanonical, hverify⟩

/-- **A manifest that passes names its room and is signed with the key it is compared by.** -/
theorem examine_spec (h : crates.examine m = .ok (room, key)) :
    crates.parseUuid m.roomId = .ok room ∧ crates.SignedBy key m := by
  unfold ClientCrates.examine at h
  cases hverify : crates.verifyManifest m with
  | error e => simp [hverify] at h
  | ok u =>
    obtain ⟨key', hs, signature, canonical, hhost, hkey, hrest⟩ := exists_signedBy hverify
    simp only [hverify] at h
    cases hroom : crates.parseUuid m.roomId with
    | error e => simp [hroom] at h
    | ok room' =>
      simp only [hroom, hhost] at h
      have hkey' := hkey
      unfold decodePublicKey at hkey'
      cases hbytes : fromBase64 hs.publicKey with
      | error e => simp [hbytes] at h
      | ok bytes =>
        simp only [hbytes] at h hkey'
        cases hsized : sized 32 bytes with
        | none => simp [hsized] at h
        | some k =>
          simp only [hsized, Except.ok.injEq, Prod.mk.injEq] at h hkey'
          obtain ⟨rfl, rfl⟩ := h
          subst hkey'
          exact ⟨rfl, hs, signature, canonical, hhost, hkey, hrest⟩

lemma vouch_eq_ok {anchor : Option PubKey} {hash : String}
    (h : crates.vouch anchor m key = .ok hash) : anchor = some key := by
  unfold ClientCrates.vouch at h
  cases anchor with
  | none => cases h
  | some expected =>
    by_cases hne : key = expected
    · rw [hne]
    · simp [hne] at h

/-! ### What passes -/

lemma fromBase64_encode {bytes : List UInt8} (h : bytes ≠ []) :
    fromBase64 (Base64.encode bytes) = .ok bytes := by
  rw [fromBase64, if_neg (Base64.encode_ne_empty h), Base64.decode_encode]

lemma sized_toList {n : ℕ} (v : Vector UInt8 n) : sized n v.toList = some v := by
  rw [sized, dif_pos v.length_toList]
  rfl

lemma fromBase64_key (key : PubKey) : fromBase64 (Base64.encode key.toList) = .ok key.toList :=
  fromBase64_encode (List.ne_nil_of_length_eq_add_one key.length_toList)

lemma decodePublicKey_encode (key : PubKey) :
    decodePublicKey (Base64.encode key.toList) = .ok key := by
  simp only [decodePublicKey, fromBase64_key, sized_toList]

lemma decodeSignature_encode (signature : Signature) :
    decodeSignature (Base64.encode signature.toList) = .ok signature := by
  have hne := List.ne_nil_of_length_eq_add_one signature.length_toList
  simp only [decodeSignature, fromBase64_encode hne, sized_toList]

/-- A manifest that carries a key and its signature passes with that key. -/
lemma examine_eq_ok (signature : Signature) {canonical : List UInt8}
    (hhost : m.hostSignature =
      some ⟨Base64.encode key.toList, "ed25519", Base64.encode signature.toList⟩)
    (hcanonical : Canonical.serialize crates.enc m = some canonical)
    (hverify : crates.verify key canonical signature = .ok ())
    (hroom : crates.parseUuid m.roomId = .ok room) : crates.examine m = .ok (room, key) := by
  have hpasses : crates.verifyManifest m = .ok () := by
    simp only [ClientCrates.verifyManifest, hhost, ne_eq, not_true_eq_false, if_false,
      decodePublicKey_encode, decodeSignature_encode, hcanonical, bind, Except.bind, hverify]
  simp only [ClientCrates.examine, hpasses, hroom, hhost, fromBase64_key, sized_toList]

end Locast.Client
