import Locast.Lib.JsonText
import Locast.Library.Sanitize
import Locast.Transfer.Plan
import Locast.Transfer.Wire
import Mathlib.Tactic.SplitIfs

/-!
# The codec of transfer frames

A frame is the length of its JSON and the JSON.  What is written is the compact text of the fields;
what reads it back is a parameter, as is the composition that the sanitizer uses.  The codec looks
at the length before it reads on, and at every field after.
-/

namespace Locast.Transfer

open Locast.Lib JsonText

/-! ### The text of a frame -/

/-- The fields that serde writes after the tag, in their order. -/
def Frame.members : Frame → List (String × Bytes)
  | hello f => [("peer_id", text f.peerId), ("download_id", text f.downloadId),
      ("media_id", text f.mediaId), ("manifest_version", int f.manifestVersion),
      ("have_chunks", nats f.haveChunks)]
  | offer f => [("peer_id", text f.peerId), ("download_id", text f.downloadId),
      ("media_id", text f.mediaId), ("manifest_version", int f.manifestVersion),
      ("total_bytes", nat f.totalBytes), ("chunk_size_bytes", nat f.chunkSizeBytes),
      ("total_chunks", nat f.totalChunks), ("sha256", text f.sha256), ("blake3", text f.blake3),
      ("filename", text f.filename)]
  | request f => [("download_id", text f.downloadId), ("chunk_index", nat f.chunkIndex)]
  | chunk f => [("download_id", text f.downloadId), ("chunk_index", nat f.chunkIndex),
      ("bytes_b64", text f.bytesB64), ("sha256", text f.sha256)]
  | ack f => [("download_id", text f.downloadId), ("chunk_index", nat f.chunkIndex)]
  | nak f => [("download_id", text f.downloadId), ("chunk_index", nat f.chunkIndex),
      ("expected_sha256", text f.expectedSha256)]
  | cancel f => [("download_id", text f.downloadId), ("reason", text f.reason)]
  | error f => [("download_id", text f.downloadId), ("reason", text f.reason)]

/-- What stands after the tag. -/
def compactFields (frame : Frame) : Bytes :=
  frame.members.flatMap (fun m => member m.1 m.2) ++ [125]

/-- `serde_json::to_vec`. -/
def toVec (frame : Frame) : Bytes := payloadOf compactFields frame

/-- How many bytes the JSON of a frame has. -/
def Frame.payloadSize : Frame → ℕ
  | hello f => 97 + textSize f.peerId + textSize f.downloadId + textSize f.mediaId +
      intSize f.manifestVersion + natsSize f.haveChunks
  | offer f => 169 + textSize f.peerId + textSize f.downloadId + textSize f.mediaId +
      intSize f.manifestVersion + digitCount f.totalBytes + digitCount f.chunkSizeBytes +
      digitCount f.totalChunks + textSize f.sha256 + textSize f.blake3 + textSize f.filename
  | request f => 50 + textSize f.downloadId + digitCount f.chunkIndex
  | chunk f => 75 + textSize f.downloadId + digitCount f.chunkIndex + textSize f.bytesB64 +
      textSize f.sha256
  | ack f => 46 + textSize f.downloadId + digitCount f.chunkIndex
  | nak f => 67 + textSize f.downloadId + digitCount f.chunkIndex + textSize f.expectedSha256
  | cancel f => 46 + textSize f.downloadId + textSize f.reason
  | error f => 45 + textSize f.downloadId + textSize f.reason

/-- The tag and the members of a frame, added up. -/
lemma length_toVec_members (frame : Frame) : (toVec frame).length =
    11 + frame.kind.asStr.length +
      (frame.members.map fun m => textSize m.1 + 4 + m.2.length).sum := by
  have hprefix : tagPrefix.length = 9 := by decide
  have hquote : (ascii "\"").length = 1 := by decide
  have hkind : (ascii frame.kind.asStr).length = frame.kind.asStr.length := by
    rw [ascii, List.length_map, String.length_toList]
  have hmembers : (frame.members.flatMap fun m => member m.1 m.2).length =
      (frame.members.map fun m => textSize m.1 + 4 + m.2.length).sum := by
    rw [List.length_flatMap]
    exact congrArg List.sum (List.map_congr_left fun m _ => length_member _ _)
  rw [toVec, payloadOf, compactFields, List.length_append, List.length_append, List.length_append,
    List.length_append, hprefix, hquote, hkind, hmembers, List.length_singleton]
  omega

/-- **The size of a frame** is the length of its JSON. -/
theorem length_toVec (frame : Frame) : (toVec frame).length = frame.payloadSize := by
  have hkeys : textSize "peer_id" = 7 ∧ textSize "download_id" = 11 ∧ textSize "media_id" = 8 ∧
      textSize "manifest_version" = 16 ∧ textSize "have_chunks" = 11 ∧
      textSize "total_bytes" = 11 ∧ textSize "chunk_size_bytes" = 16 ∧
      textSize "total_chunks" = 12 ∧ textSize "sha256" = 6 ∧ textSize "blake3" = 6 ∧
      textSize "filename" = 8 ∧ textSize "chunk_index" = 11 ∧ textSize "bytes_b64" = 9 ∧
      textSize "expected_sha256" = 15 ∧ textSize "reason" = 6 := by decide
  rw [length_toVec_members]
  have hkinds : "hello".length = 5 ∧ "offer".length = 5 ∧ "request".length = 7 ∧
      "chunk".length = 5 ∧ "ack".length = 3 ∧ "nak".length = 3 ∧ "cancel".length = 6 ∧
      "error".length = 5 := by decide
  cases frame <;>
    simp only [Frame.members, Frame.payloadSize, Frame.kind, FrameKind.asStr, List.map_cons,
      List.map_nil, List.sum_cons, List.sum_nil, length_text, length_nat, length_int, length_nats,
      hkeys, hkinds] <;> omega

/-! ### Validation -/

/-- `MAX_ERROR_LEN`. -/
def maxErrorLen : ℕ := 512

/-- `check_download_id`. -/
def checkDownloadId (s : String) : Except WireError Unit :=
  if s = "" ∨ 64 < s.utf8ByteSize then .error (.invalidDownloadId s)
  else if s.toList.all fun c => c.isDigit || ('a' ≤ c && c ≤ 'f') || c == '-' then .ok ()
  else .error (.invalidDownloadId s)

/-- `check_64_lowercase_hex`; the predicate is that of the planner. -/
def check64LowercaseHex (s : String) : Except WireError Unit :=
  if is64LowercaseHex s then .ok () else .error (.invalidHash s)

/-- What a `Hello` and an `Offer` bind a download to. -/
def checkBinding (peerId mediaId : String) (manifestVersion : ℤ) : Except WireError Unit :=
  if !isCanonicalPeerId peerId then .error (.invalidPeerId peerId)
  else if mediaId = "" ∨ 64 < mediaId.utf8ByteSize then .error (.invalidMediaId mediaId)
  else if manifestVersion < 1 then .error (.invalidManifestVersion manifestVersion)
  else .ok ()

/-- The reason of a `Cancel` or an `Error`. -/
def checkReason (reason : String) : Except WireError Unit :=
  if reason = "" then .error .errorReasonEmpty
  else if maxErrorLen < reason.utf8ByteSize then
    .error (.errorReasonTooLong reason.utf8ByteSize maxErrorLen)
  else .ok ()

section Codec

variable (nfc : List Char → List Char) (fromSlice : Bytes → Except String Frame)

def checkFilename (filename : String) : Except WireError Unit :=
  match Library.sanitize nfc filename with
  | .error e => .error (.invalidFilename e.display)
  | .ok _ => .ok ()

/-- The largest `u32`, which is no chunk's index. -/
def u32Max : ℕ := 2 ^ 32 - 1

def validate : Frame → Except WireError Unit
  | .hello f => do
    checkDownloadId f.downloadId
    checkBinding f.peerId f.mediaId f.manifestVersion
    if u32Max ∈ f.haveChunks then .error (.chunkIndexOutOfRange u32Max u32Max) else .ok ()
  | .offer f => do
    checkDownloadId f.downloadId
    checkBinding f.peerId f.mediaId f.manifestVersion
    check64LowercaseHex f.sha256
    check64LowercaseHex f.blake3
    checkFilename nfc f.filename
  | .request f => checkDownloadId f.downloadId
  | .chunk f => do
    checkDownloadId f.downloadId
    check64LowercaseHex f.sha256
  | .ack f => checkDownloadId f.downloadId
  | .nak f => do
    checkDownloadId f.downloadId
    check64LowercaseHex f.expectedSha256
  | .cancel f => do
    checkDownloadId f.downloadId
    checkReason f.reason
  | .error f => do
    checkDownloadId f.downloadId
    checkReason f.reason

/-! ### Decoding -/

/-- `u32::from_be_bytes`. -/
def fromBeBytes32 (a b c d : UInt8) : ℕ :=
  ((a.toNat * 256 + b.toNat) * 256 + c.toNat) * 256 + d.toNat

/-- The length prefix of a buffer. -/
def declaredLength : Bytes → Option ℕ
  | a :: b :: c :: d :: _ => some (fromBeBytes32 a b c d)
  | _ => none

/-- The frame of a payload. -/
def readPayload (payload : Bytes) : Except WireError Frame :=
  match fromSlice payload with
  | .error e => .error (.malformed ("decode: " ++ e))
  | .ok frame => do
    validate nfc frame
    pure frame

/-- `codec::decode`. -/
def decode (bytes : Bytes) : Except WireError (Frame × ℕ) :=
  match declaredLength bytes with
  | none =>
    .error (.io ("short read: " ++ toString bytes.length ++ " bytes (< 4-byte length prefix)"))
  | some len =>
    if len = 0 then .error (.invalidLength 0)
    else if maxFrameBytes < len then .error (.invalidLength len)
    else if bytes.length < 4 + len then
      .error (.io ("short read: " ++ toString bytes.length ++ " bytes (< declared " ++
        toString (4 + len) ++ ")"))
    else (readPayload nfc fromSlice ((bytes.drop 4).take len)).map fun frame => (frame, 4 + len)

/-- The loop of `codec::decode_stream`. -/
def decodeStreamFrom (bytes : Bytes) (out : List Frame) (cursor : ℕ) :
    Except WireError (List Frame × ℕ) :=
  if cursor < bytes.length then
    match declaredLength (bytes.drop cursor) with
    | none => .error (.io ("trailing " ++ toString (bytes.length - cursor) ++
        " bytes (< 4-byte length prefix)"))
    | some len =>
      if len = 0 ∨ maxFrameBytes < len then .error (.invalidLength len)
      else if bytes.length - cursor < 4 + len then
        .error
          (.io ("short read at offset " ++ toString cursor ++ ": need " ++ toString (4 + len) ++
            " bytes, have " ++ toString (bytes.length - cursor)))
      else
        match readPayload nfc fromSlice ((bytes.drop (cursor + 4)).take len) with
        | .error e => .error e
        | .ok frame => decodeStreamFrom bytes (out ++ [frame]) (cursor + (4 + len))
  else .ok (out, cursor)
termination_by bytes.length - cursor

/-- `codec::decode_stream`. -/
def decodeStream (bytes : Bytes) : Except WireError (List Frame × ℕ) :=
  decodeStreamFrom nfc fromSlice bytes [] 0

/-- Decoding again and again consumes all of the bytes. -/
inductive Decodes : Bytes → List Frame → Prop
  | nil : Decodes [] []
  | cons {bytes : Bytes} {frame : Frame} {n : ℕ} {frames : List Frame}
      (h : decode nfc fromSlice bytes = .ok (frame, n)) (rest : Decodes (bytes.drop n) frames) :
      Decodes bytes (frame :: frames)

end Codec

/-- `codec::encode`, one frame after another into one buffer. -/
def encodeAll : List Frame → Except WireError Bytes
  | [] => .ok []
  | frame :: frames => do
    let bytes ← encode compactFields frame
    let rest ← encodeAll frames
    pure (bytes ++ rest)

/-! ### The length prefix -/

lemma declaredLength_append {n : ℕ} (h : n < 2 ^ 32) (rest : Bytes) :
    declaredLength (toBeBytes32 n ++ rest) = some n := by
  simp only [toBeBytes32, declaredLength, fromBeBytes32, List.cons_append, UInt8.toNat_ofNat',
    Option.some.injEq]
  omega

lemma encode_eq_ok {frame : Frame} {bytes : Bytes} :
    encode compactFields frame = .ok bytes ↔ frame.payloadSize ≤ maxFrameBytes ∧
      bytes = toBeBytes32 frame.payloadSize ++ toVec frame := by
  unfold encode
  rw [← toVec]
  dsimp only
  rw [length_toVec]
  split
  · exact ⟨fun h => (by cases h), fun h => absurd h.1 (by omega)⟩
  · exact ⟨fun h => ⟨by omega, (Except.ok.inj h).symm⟩, fun h => congrArg _ h.2.symm⟩

lemma payloadSize_pos (frame : Frame) : 0 < frame.payloadSize := by
  cases frame <;> simp only [Frame.payloadSize] <;> omega

/-! ### Decoding -/

section Decoding

variable {nfc : List Char → List Char} {fromSlice : Bytes → Except String Frame}

lemma readPayload_eq_ok {payload : Bytes} {frame : Frame} :
    readPayload nfc fromSlice payload = .ok frame ↔
      fromSlice payload = .ok frame ∧ validate nfc frame = .ok () := by
  unfold readPayload
  cases fromSlice payload with
  | error e => simp
  | ok f =>
    cases hv : validate nfc f with
    | error e =>
      constructor
      · exact fun h => by simp [hv, bind, Except.bind] at h
      · rintro ⟨h, hv'⟩
        obtain rfl := Except.ok.inj h
        rw [hv] at hv'
        cases hv'
    | ok u =>
      constructor
      · intro h
        have heq : f = frame := by simpa [hv, bind, Except.bind, pure, Except.pure] using h
        exact ⟨congrArg _ heq, heq ▸ hv⟩
      · rintro ⟨h, hv'⟩
        simp [bind, Except.bind, pure, Except.pure, Except.ok.inj h, hv']

/-- **What `decode` accepts**: a length that the codec allows, that many bytes, and the text of a
valid frame in them. -/
theorem decode_eq_ok {bytes : Bytes} {frame : Frame} {n : ℕ} :
    decode nfc fromSlice bytes = .ok (frame, n) ↔ ∃ len, declaredLength bytes = some len ∧ len ≠ 0 ∧
      len ≤ maxFrameBytes ∧ 4 + len ≤ bytes.length ∧ n = 4 + len ∧
        readPayload nfc fromSlice ((bytes.drop 4).take len) = .ok frame := by
  unfold decode
  cases declaredLength bytes with
  | none => simp
  | some len =>
    simp only [Option.some.injEq, exists_eq_left']
    split_ifs with h₁ h₂ h₃
    · exact ⟨fun h => (by cases h), fun ⟨hne, _⟩ => absurd h₁ hne⟩
    · exact ⟨fun h => (by cases h), fun ⟨_, hle, _⟩ => absurd hle (by omega)⟩
    · exact ⟨fun h => (by cases h), fun ⟨_, _, hle, _⟩ => absurd hle (by omega)⟩
    · cases hread : readPayload nfc fromSlice ((bytes.drop 4).take len) with
      | error e => simp [Except.map]
      | ok f =>
        simp only [Except.map, Except.ok.injEq, Prod.mk.injEq]
        constructor
        · rintro ⟨rfl, rfl⟩
          exact ⟨h₁, by omega, by omega, rfl, rfl⟩
        · rintro ⟨-, -, -, rfl, rfl⟩
          exact ⟨rfl, rfl⟩

lemma consumed_of_decode {bytes : Bytes} {frame : Frame} {n : ℕ}
    (h : decode nfc fromSlice bytes = .ok (frame, n)) : 0 < n ∧ n ≤ bytes.length := by
  obtain ⟨len, -, -, -, hle, rfl, -⟩ := decode_eq_ok.1 h
  omega

/-- One round of the loop is a `decode` at the cursor. -/
lemma decodeStreamFrom_step {bytes : Bytes} {out : List Frame} {cursor : ℕ}
    (hlt : cursor < bytes.length) {r : List Frame × ℕ} :
    decodeStreamFrom nfc fromSlice bytes out cursor = .ok r ↔ ∃ frame n,
      decode nfc fromSlice (bytes.drop cursor) = .ok (frame, n) ∧
        decodeStreamFrom nfc fromSlice bytes (out ++ [frame]) (cursor + n) = .ok r := by
  simp only [decode_eq_ok]
  rw [decodeStreamFrom, if_pos hlt]
  cases declaredLength (bytes.drop cursor) with
  | none => simp
  | some len =>
    simp only [Option.some.injEq, List.drop_drop, List.length_drop]
    split_ifs with h₁ h₂
    · refine ⟨fun h => (by cases h), ?_⟩
      rintro ⟨frame, n, ⟨len', rfl, hne, hle, -⟩, -⟩
      omega
    · refine ⟨fun h => (by cases h), ?_⟩
      rintro ⟨frame, n, ⟨len', rfl, -, -, hle, -⟩, -⟩
      omega
    · cases hread : readPayload nfc fromSlice ((bytes.drop (cursor + 4)).take len) with
      | error e =>
        refine ⟨fun h => (by cases h), ?_⟩
        rintro ⟨frame, n, ⟨len', rfl, -, -, -, -, hframe⟩, -⟩
        rw [hread] at hframe
        cases hframe
      | ok f =>
        refine ⟨fun h => ⟨f, 4 + len, ⟨len, rfl, by omega, by omega, by omega, rfl, hread⟩, h⟩, ?_⟩
        rintro ⟨frame, n, ⟨len', rfl, -, -, -, rfl, hframe⟩, h⟩
        rw [hread] at hframe
        obtain rfl := Except.ok.inj hframe
        exact h

lemma decodeStreamFrom_eq_ok {bytes : Bytes} {out frames : List Frame} {cursor n : ℕ}
    (hle : cursor ≤ bytes.length) :
    decodeStreamFrom nfc fromSlice bytes out cursor = .ok (frames, n) ↔ n = bytes.length ∧
      ∃ more, frames = out ++ more ∧ Decodes nfc fromSlice (bytes.drop cursor) more := by
  induction hk : bytes.length - cursor using Nat.strong_induction_on generalizing out cursor with
  | _ k ih =>
    rcases Nat.eq_or_lt_of_le hle with rfl | hlt
    · rw [decodeStreamFrom, if_neg (lt_irrefl _), List.drop_length]
      constructor
      · rintro h
        obtain ⟨rfl, rfl⟩ := Prod.mk.inj (Except.ok.inj h)
        exact ⟨rfl, [], (List.append_nil _).symm, .nil⟩
      · rintro ⟨rfl, more, rfl, hmore⟩
        cases hmore with
        | nil => rw [List.append_nil]
        | cons h rest =>
          have hused := consumed_of_decode h
          rw [List.length_nil] at hused
          omega
    · rw [decodeStreamFrom_step hlt]
      constructor
      · rintro ⟨frame, m, hdecode, hrest⟩
        have hused := consumed_of_decode hdecode
        rw [List.length_drop] at hused
        obtain ⟨rfl, more, rfl, hmore⟩ := (ih _ (by omega) (by omega) rfl).1 hrest
        refine ⟨rfl, frame :: more, by simp, .cons hdecode ?_⟩
        rwa [List.drop_drop]
      · rintro ⟨rfl, more, rfl, hmore⟩
        generalize htail : bytes.drop cursor = tail at hmore
        cases hmore with
        | nil =>
          have := List.drop_eq_nil_iff.1 htail
          omega
        | @cons _ frame m frames hdecode rest =>
          subst htail
          have hused := consumed_of_decode hdecode
          rw [List.length_drop] at hused
          rw [List.drop_drop] at rest
          exact ⟨frame, m, hdecode, (ih _ (by omega) (by omega) rfl).2 ⟨rfl, frames, by simp, rest⟩⟩

/-- **`decode_stream` is repeated `decode`**: it succeeds when that consumes every byte, with the
same frames. -/
theorem decodeStream_eq_ok {bytes : Bytes} {frames : List Frame} {n : ℕ} :
    decodeStream nfc fromSlice bytes = .ok (frames, n) ↔
      n = bytes.length ∧ Decodes nfc fromSlice bytes frames := by
  rw [decodeStream, decodeStreamFrom_eq_ok (Nat.zero_le _)]
  simp

/-! ### Round trips -/

/-- A frame that the codec accepts at the other side, once its text is read back. -/
structure Readable (nfc : List Char → List Char) (fromSlice : Bytes → Except String Frame)
    (frame : Frame) : Prop where
  valid : validate nfc frame = .ok ()
  readBack : fromSlice (toVec frame) = .ok frame

/-- **The round trip of a frame**, whatever follows it. -/
theorem decode_encode_append {frame : Frame} {bytes : Bytes} (h : Readable nfc fromSlice frame)
    (henc : encode compactFields frame = .ok bytes) (rest : Bytes) :
    decode nfc fromSlice (bytes ++ rest) = .ok (frame, bytes.length) := by
  obtain ⟨hsize, rfl⟩ := encode_eq_ok.1 henc
  have hmax : maxFrameBytes < 2 ^ 32 := by decide
  have hlen := length_toVec frame
  have hprefix : ∀ n, (toBeBytes32 n).length = 4 := fun _ => rfl
  have hbytes : (toBeBytes32 frame.payloadSize ++ toVec frame).length = 4 + frame.payloadSize := by
    rw [List.length_append, hprefix, hlen]
  refine decode_eq_ok.2 ⟨frame.payloadSize, ?_, ?_, hsize, ?_, hbytes, ?_⟩
  · rw [List.append_assoc]
    exact declaredLength_append (by omega) _
  · exact (payloadSize_pos frame).ne'
  · rw [List.length_append, hbytes]
    omega
  · have hdrop : ((toBeBytes32 frame.payloadSize ++ toVec frame) ++ rest).drop 4 =
        toVec frame ++ rest := rfl
    rw [hdrop, ← hlen, List.take_left]
    exact readPayload_eq_ok.2 ⟨h.readBack, h.valid⟩

/-- What is decoded from the encoding of a frame is valid. -/
lemma validate_of_decode_encode {frame f : Frame} {bytes : Bytes} {n : ℕ}
    (henc : encode compactFields frame = .ok bytes) (hread : fromSlice (toVec frame) = .ok frame)
    (hdecode : decode nfc fromSlice bytes = .ok (f, n)) : validate nfc frame = .ok () := by
  obtain ⟨hsize, rfl⟩ := encode_eq_ok.1 henc
  obtain ⟨len, hlen, -, -, -, -, hpayload⟩ := decode_eq_ok.1 hdecode
  have hmax : maxFrameBytes < 2 ^ 32 := by decide
  rw [declaredLength_append (by omega)] at hlen
  obtain rfl := Option.some.inj hlen
  have hdrop : (toBeBytes32 frame.payloadSize ++ toVec frame).drop 4 = toVec frame := rfl
  rw [hdrop, ← length_toVec, List.take_length] at hpayload
  obtain ⟨hslice, hvalid⟩ := readPayload_eq_ok.1 hpayload
  rw [hread] at hslice
  obtain rfl := Except.ok.inj hslice
  exact hvalid

lemma encodeAll_cons {frame : Frame} {frames : List Frame} {bytes : Bytes} :
    encodeAll (frame :: frames) = .ok bytes ↔ ∃ b rest, encode compactFields frame = .ok b ∧
      encodeAll frames = .ok rest ∧ bytes = b ++ rest := by
  rw [encodeAll]
  cases encode compactFields frame with
  | error e => simp [bind, Except.bind]
  | ok b =>
    cases encodeAll frames with
    | error e => simp [bind, Except.bind]
    | ok rest => simp [bind, Except.bind, pure, Except.pure, eq_comm]

/-- A list of frames can be encoded when each of them can. -/
lemma exists_encodeAll {frames : List Frame} :
    (∃ bytes, encodeAll frames = .ok bytes) ↔ ∀ f ∈ frames, f.payloadSize ≤ maxFrameBytes := by
  induction frames with
  | nil => simp [encodeAll]
  | cons frame frames ih =>
    simp only [encodeAll_cons, List.forall_mem_cons, ← ih, encode_eq_ok]
    constructor
    · rintro ⟨_, b, rest, ⟨hsize, -⟩, hrest, -⟩
      exact ⟨hsize, rest, hrest⟩
    · rintro ⟨hsize, rest, hrest⟩
      exact ⟨_, _, rest, ⟨hsize, rfl⟩, hrest, rfl⟩

/-- **The round trip of a list of frames.** -/
theorem decodes_encodeAll {frames : List Frame} {bytes : Bytes}
    (h : ∀ f ∈ frames, Readable nfc fromSlice f) (henc : encodeAll frames = .ok bytes) :
    Decodes nfc fromSlice bytes frames := by
  induction frames generalizing bytes with
  | nil =>
    obtain rfl := Except.ok.inj henc
    exact .nil
  | cons frame frames ih =>
    obtain ⟨b, rest, hb, hrest, rfl⟩ := encodeAll_cons.1 henc
    refine .cons (decode_encode_append (h frame List.mem_cons_self) hb rest) ?_
    rw [List.drop_left]
    exact ih (fun f hf => h f (List.mem_cons_of_mem _ hf)) hrest

end Decoding

end Locast.Transfer
