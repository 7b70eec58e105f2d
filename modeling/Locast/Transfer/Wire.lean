import Locast.Transfer.Segments
import Mathlib.Data.Int.Notation

/-!
# Transfer frames

The frames of the transfer protocol, how the tag of one begins its text, and how the receive pump of
a shared data channel reads the tag to decide which half of the protocol a frame is for.
-/

namespace Locast.Transfer

/-! ### Frames -/

inductive FrameKind where
  | hello
  | offer
  | request
  | chunk
  | ack
  | nak
  | cancel
  | error
  deriving DecidableEq

/-- `as_str`. -/
def FrameKind.asStr : FrameKind → String
  | hello => "hello"
  | offer => "offer"
  | request => "request"
  | chunk => "chunk"
  | ack => "ack"
  | nak => "nak"
  | cancel => "cancel"
  | error => "error"

/-- The name of the variant, as `{:?}` prints it. -/
def FrameKind.debug : FrameKind → String
  | hello => "Hello"
  | offer => "Offer"
  | request => "Request"
  | chunk => "Chunk"
  | ack => "Ack"
  | nak => "Nak"
  | cancel => "Cancel"
  | error => "Error"

structure HelloFrame where
  peerId : String
  downloadId : String
  mediaId : String
  manifestVersion : ℤ
  haveChunks : List ℕ
  deriving DecidableEq

structure OfferFrame where
  peerId : String
  downloadId : String
  mediaId : String
  manifestVersion : ℤ
  totalBytes : ℕ
  chunkSizeBytes : ℕ
  totalChunks : ℕ
  sha256 : String
  blake3 : String
  filename : String
  deriving DecidableEq

structure RequestFrame where
  downloadId : String
  chunkIndex : ℕ
  deriving DecidableEq

structure ChunkFrame where
  downloadId : String
  chunkIndex : ℕ
  bytesB64 : String
  sha256 : String
  deriving DecidableEq

structure AckFrame where
  downloadId : String
  chunkIndex : ℕ
  deriving DecidableEq

structure NakFrame where
  downloadId : String
  chunkIndex : ℕ
  expectedSha256 : String
  deriving DecidableEq

structure CancelFrame where
  downloadId : String
  reason : String
  deriving DecidableEq

structure ErrorFrame where
  downloadId : String
  reason : String
  deriving DecidableEq

inductive Frame where
  | hello (f : HelloFrame)
  | offer (f : OfferFrame)
  | request (f : RequestFrame)
  | chunk (f : ChunkFrame)
  | ack (f : AckFrame)
  | nak (f : NakFrame)
  | cancel (f : CancelFrame)
  | error (f : ErrorFrame)
  deriving DecidableEq

def Frame.kind : Frame → FrameKind
  | hello _ => .hello
  | offer _ => .offer
  | request _ => .request
  | chunk _ => .chunk
  | ack _ => .ack
  | nak _ => .nak
  | cancel _ => .cancel
  | error _ => .error

/-! ### Encoding -/

/-- What the codec refuses. -/
inductive WireError where
  | invalidLength (n : ℕ)
  | malformed (message : String)
  | invalidDownloadId (id : String)
  | invalidMediaId (id : String)
  | invalidPeerId (id : String)
  | invalidHash (hash : String)
  | invalidFilename (message : String)
  | chunkIndexOutOfRange (index total : ℕ)
  | invalidManifestVersion (version : ℤ)
  | errorReasonTooLong (len max : ℕ)
  | errorReasonEmpty
  | io (message : String)
  deriving DecidableEq

def WireError.display : WireError → String
  | invalidLength n => "invalid length prefix: " ++ toString n
  | malformed message => "malformed frame payload: " ++ message
  | invalidDownloadId _ => "invalid download_id: must be uuid-shaped lowercase hex + '-'"
  | invalidMediaId _ => "invalid media_id: must be non-empty"
  | invalidPeerId _ => "invalid peer_id: must be 64 lowercase hex chars"
  | invalidHash _ => "invalid hash: must be 64 lowercase hex chars"
  | invalidFilename message => "invalid filename: " ++ message
  | chunkIndexOutOfRange index total =>
    "chunk_index " ++ toString index ++ " out of range [0, " ++ toString total ++ ")"
  | invalidManifestVersion version => "invalid manifest_version: " ++ toString version
  | errorReasonTooLong len max =>
    "error reason too long: " ++ toString len ++ " > " ++ toString max
  | errorReasonEmpty => "error reason must be non-empty"
  | io message => "transport io error: " ++ message

/-- The bytes of an ASCII text. -/
def ascii (s : String) : Bytes := s.toList.map fun c => UInt8.ofNat c.toNat

/-- What serde writes before the fields of an internally tagged variant. -/
def tagPrefix : Bytes := ascii "\x7b\"kind\":\""

/-- `u32::to_be_bytes`. -/
def toBeBytes32 (n : ℕ) : Bytes :=
  [UInt8.ofNat (n / 2 ^ 24), UInt8.ofNat (n / 2 ^ 16), UInt8.ofNat (n / 2 ^ 8), UInt8.ofNat n]

/-- The JSON of a frame: the tag, then the fields as `fields` writes them. -/
def payloadOf (fields : Frame → Bytes) (frame : Frame) : Bytes :=
  tagPrefix ++ ascii frame.kind.asStr ++ ascii "\"" ++ fields frame

/-- `codec::encode`. -/
def encode (fields : Frame → Bytes) (frame : Frame) : Except WireError Bytes :=
  let payload := payloadOf fields frame
  if maxFrameBytes < payload.length then .error (.invalidLength payload.length)
  else .ok (toBeBytes32 payload.length ++ payload)

/-! ### Roles -/

/-- Which half of the transfer protocol a transport consumes. -/
inductive Role where
  | sender
  | requester
  deriving DecidableEq

/-- `role_of_frame`: the tag, read without parsing the body. -/
def roleOfFrame (frame : Bytes) : Option Role :=
  if tagPrefix <+: frame.drop 4 then
    let rest := (frame.drop 4).drop tagPrefix.length
    if 34 ∈ rest then
      let tag := rest.takeWhile (· != 34)
      if tag = ascii "hello" ∨ tag = ascii "request" ∨ tag = ascii "ack" ∨ tag = ascii "nak" ∨
          tag = ascii "cancel" then some .sender
      else if tag = ascii "offer" ∨ tag = ascii "chunk" then some .requester
      else none
    else none
  else none

/-- The roles that `route` hands a frame to. -/
def targets (frame : Bytes) : List Role :=
  match roleOfFrame frame with
  | some role => [role]
  | none => [.sender, .requester]

/-- The half of the protocol that consumes a kind; `error` belongs to both. -/
def FrameKind.role : FrameKind → Option Role
  | hello | request | ack | nak | cancel => some .sender
  | offer | chunk => some .requester
  | error => none

lemma takeWhile_quote {tag rest : Bytes} (h : 34 ∉ tag) :
    (tag ++ 34 :: rest).takeWhile (· != 34) = tag := by
  have hall : ∀ b ∈ tag, (b != 34) = true := fun b hb => by
    rw [bne_iff_ne]
    rintro rfl
    exact h hb
  rw [List.takeWhile_append_of_pos hall]
  simp

lemma quote_not_mem_kind (kind : FrameKind) : 34 ∉ ascii kind.asStr := by
  cases kind <;> decide

/-- The tag of an encoded frame is read back. -/
lemma roleOfFrame_encode {fields : Frame → Bytes} {frame : Frame} {bytes : Bytes}
    (h : encode fields frame = .ok bytes) : roleOfFrame bytes = frame.kind.role := by
  unfold encode at h
  dsimp only at h
  split at h
  · cases h
  obtain rfl := Except.ok.inj h
  have hdrop : ∀ n payload, (toBeBytes32 n ++ payload).drop 4 = payload := fun _ _ => rfl
  have hpayload : payloadOf fields frame =
      tagPrefix ++ (ascii frame.kind.asStr ++ 34 :: fields frame) := by
    rw [payloadOf, List.append_assoc, List.append_assoc]
    rfl
  have hmem : (34 : UInt8) ∈ ascii frame.kind.asStr ++ 34 :: fields frame := by simp
  unfold roleOfFrame
  rw [hdrop, hpayload, if_pos (List.prefix_append _ _), List.drop_left]
  simp only [if_pos hmem, takeWhile_quote (quote_not_mem_kind _)]
  cases frame.kind <;> decide

/-- **An encoded frame goes to the half that consumes its kind**, an error to both. -/
theorem targets_encode {fields : Frame → Bytes} {frame : Frame} {bytes : Bytes}
    (h : encode fields frame = .ok bytes) :
    targets bytes = (frame.kind.role.map fun role => [role]).getD [.sender, .requester] := by
  rw [targets, roleOfFrame_encode h]
  cases frame.kind.role <;> rfl

end Locast.Transfer
