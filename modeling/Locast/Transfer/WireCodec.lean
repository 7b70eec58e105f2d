import Locast.Transfer.BuiltFrames
import Locast.Transfer.RunWorld

/-!
# The wire codec

What is encoded is decoded, a stream is decoded frame by frame, and the frames of a transfer are
carried, each exactly as far as it fits.  The `Hello` of a long film does not: it lists every
completed chunk.
-/

namespace Locast.Transfer

open Locast.Lib JsonText

/-- **The codec.**  A valid frame is decoded from its encoding when it fits; `decode_stream` is
repeated `decode`; a list of valid frames is decoded from their encodings when each fits; and a
frame that the receiver or the sender of a plan sends is carried to the other side just when it is
`Carried`. -/
theorem wire_codec (nfc : List Char → List Char) (fromSlice : Bytes → Except String Frame) :
    (∀ frame, Readable nfc fromSlice frame →
      ((∃ bytes, encode compactFields frame = .ok bytes ∧
        ∀ rest, decode nfc fromSlice (bytes ++ rest) = .ok (frame, bytes.length)) ↔
          frame.payloadSize ≤ maxFrameBytes)) ∧
    (∀ bytes frames n, decodeStream nfc fromSlice bytes = .ok (frames, n) ↔
      n = bytes.length ∧ Decodes nfc fromSlice bytes frames) ∧
    (∀ frames, (∀ f ∈ frames, Readable nfc fromSlice f) →
      ((∃ bytes, encodeAll frames = .ok bytes ∧
        decodeStream nfc fromSlice bytes = .ok (frames, bytes.length)) ↔
          ∀ f ∈ frames, f.payloadSize ≤ maxFrameBytes)) ∧
    (∀ (ps : RunParams) downloadId mediaId manifestVersion entry peerId,
      planDownload downloadId mediaId manifestVersion entry peerId = .ok ps.plan →
      isCanonicalPeerId ps.localPeerId = true →
      ∀ fuel s tr q, (runMultiSource ps fuel s).Does tr q →
        ∀ peer frame checked (out : SendOutcome),
          (⟨.send peer frame checked, out⟩ : ActRecord) ∈ tr → frame.IndexFits →
            (Travels nfc frame ↔ Carried nfc ps.plan frame)) ∧
    ∀ (prims : Primitives) plan downloadId mediaId manifestVersion entry peerId,
      planDownload downloadId mediaId manifestVersion entry peerId = .ok plan →
      (∀ bytes, prims.base64Encode bytes = Base64.encode bytes) →
      ∀ hello filename fuel tr q,
        (SenderSession.runAfterHello prims plan hello filename fuel).Does tr q →
        (∀ x ∈ tr, SenderEffect.Answers x.1 x.2) →
        ∀ frame (out : SendOutcome), (⟨.send frame, out⟩ : (e : SenderEffect) × e.Resp) ∈ tr →
          frame.IndexFits → (Travels nfc frame ↔ Carried nfc plan frame) := by
  refine ⟨fun frame hread => ⟨?_, fun hsize => ?_⟩, fun bytes frames n => decodeStream_eq_ok,
    fun frames hread => ⟨?_, fun hsize => ?_⟩, ?_, ?_⟩
  · rintro ⟨bytes, henc, -⟩
    exact (encode_eq_ok.1 henc).1
  · have henc := encode_eq_ok.2 ⟨hsize, rfl⟩
    exact ⟨_, henc, decode_encode_append hread henc⟩
  · rintro ⟨bytes, henc, -⟩
    exact exists_encodeAll.1 ⟨bytes, henc⟩
  · obtain ⟨bytes, henc⟩ := exists_encodeAll.2 hsize
    exact ⟨bytes, henc, decodeStream_eq_ok.2 ⟨rfl, decodes_encodeAll hread henc⟩⟩
  · intro ps downloadId mediaId manifestVersion entry peerId hplan hlocal fuel s tr q hdoes
      peer frame checked out hmem hfits
    have hbuilt := (sends_runMultiSource fuel s).does_only hdoes (fun _ _ => trivial) _ hmem
    exact travels_receiverFrame (wellFormed_of_planDownload hplan) (layout_of_planDownload hplan)
      hlocal hbuilt hfits
  · intro prims plan downloadId mediaId manifestVersion entry peerId hplan hbase64 hello filename
      fuel tr q hdoes hanswers frame out hmem hfits
    have hbuilt := (sends_runAfterHello hello fuel).does_only hdoes hanswers _ hmem
    exact travels_senderFrame (wellFormed_of_planDownload hplan) hbase64 hbuilt hfits

/-! ### A film that is too long -/

/-- The `Hello` of a receiver that has these chunks. -/
def helloOf (ps : RunParams) (had : List ℕ) : HelloFrame :=
  ⟨ps.localPeerId, ps.plan.downloadId, ps.plan.mediaId, ps.plan.manifestVersion, had⟩

/-- The completed chunks alone, in decimal and with commas. -/
lemma le_payloadSize_helloOf (ps : RunParams) (had : List ℕ) :
    97 + (had.map digitCount).sum + (had.length - 1) ≤
      (Frame.hello (helloOf ps had)).payloadSize := by
  simp only [Frame.payloadSize, helloOf, natsSize]
  omega

/-- A run that goes on where an earlier one stopped sends its `Hello` to its one source. -/
lemma does_hello (ps : RunParams) (h : SourceHandle) (s : Receiver) (hs : s.sources = [h])
    (had : List ℕ) : ∃ tr q, (runMultiSource ps 1 s).Does tr q ∧
      (∀ indices, (⟨.completedChunkIndices, (.ok indices : Except String (List ℕ))⟩ :
        ActRecord) ∈ tr → indices = had) ∧
      (⟨.send h.peerId (.hello (helloOf ps had)) true, SendOutcome.sent⟩ : ActRecord) ∈ tr := by
  obtain ⟨_, inFlight, retries, tried, naks, stuck, haveSet⟩ := s
  obtain rfl := hs
  have hmoved : ¬(some DownloadState.transferring ≠ some .transferring ∧
      some DownloadState.transferring ≠ some .verifying) := by decide
  refine ⟨[⟨.recordState .pending none, ()⟩,
    ⟨.store (.selectState ps.plan.downloadId), (.ok (some .transferring) : Except String _)⟩,
    ⟨.completedChunkIndices, (.ok had : Except String (List ℕ))⟩,
    ⟨.send h.peerId (.hello (helloOf ps had)) true, SendOutcome.sent⟩], _,
    .cons (.cons (by dsimp only; rw [if_neg hmoved]; exact .cons (.cons (.nil _)))), ?_,
    List.mem_of_getLast? rfl⟩
  intro indices hmem
  simp only [List.mem_cons, List.not_mem_nil, or_false] at hmem
  rcases hmem with h | h | h | h <;> cases h
  rfl

namespace LongFilm

/-- A digest. -/
def digest : String := "3a7bd3e2360a3d29eea436fcfb7e44c735d117c42d1c1835420b6b9942dd4f1b"

/-- The chunks of a film of 44.6 GB. -/
@[irreducible] def total : ℕ := 170000

lemma total_eq : total = 170000 := by rw [total]

def source : Protocol.Source :=
  ⟨digest, none, 0, chunkSizeBytes, total, List.replicate total digest⟩

def entry : Protocol.MediaEntry where
  id := "0190a5c2-7f3e-7aaa-8bbb-0123456789ab"
  filename := "film.mkv"
  sha256 := digest
  blake3 := digest
  sizeBytes := total * chunkSizeBytes
  mime := "video/x-matroska"
  durationMs := 10800000
  dimensions := none
  codecs := none
  sources := [source]

def downloadId : String := "0190a5c2-7f3e-7abc-9def-0123456789ab"

def params : RunParams where
  sha256Hex := fun _ => digest
  blake3Hex := fun _ => digest
  base64Decode := Base64.decode
  sanitizeErrorMessage := id
  localPeerId := digest
  plan := planOf downloadId entry.id 1 entry digest source

lemma digest_hex : is64LowercaseHex digest = true := is64LowercaseHex_ofList (by decide) (by decide)

lemma download_checked : checkDownloadId downloadId = .ok () := by decide

/-- The media id is made of the same characters. -/
lemma media_checked : checkDownloadId entry.id = .ok () := by decide

lemma binds : params.plan.Binds := ⟨by decide, by decide, Int.le_refl 1⟩

lemma version_size : intSize 1 ≤ 64 := by decide

/-- No id and no digest of the film is longer than 64 bytes in a frame. -/
lemma sizes : textSize digest = 64 ∧ textSize downloadId ≤ 64 ∧ textSize entry.id ≤ 64 :=
  ⟨textSize_of_hex digest_hex, textSize_of_downloadId download_checked,
    textSize_of_downloadId media_checked⟩

lemma planned : planDownload downloadId entry.id 1 entry digest = .ok params.plan := by
  have hsize : entry.sizeBytes = 170000 * chunkSizeBytes := by rw [entry, total_eq]
  have htotal : source.totalChunks = totalChunksFor entry.sizeBytes chunkSizeBytes := by
    rw [hsize, source, total_eq]
    decide
  refine planDownload_eq_ok.2 ⟨source, ⟨⟨rfl, by simp [source], htotal, ?_⟩, by decide,
    digest_hex, digest_hex, by rw [hsize]; decide, digest_hex, ?_⟩, rfl⟩
  · intro hash hhash
    rw [List.eq_of_mem_replicate hhash]
    exact digest_hex
  · rw [entry, List.find?_cons_of_pos]
    exact beq_self_eq_true _

/-- The `Hello` of a viewer that has every chunk. -/
def hello : HelloFrame := helloOf params (List.range total)

lemma hello_valid (nfc : List Char → List Char) : validate nfc (.hello hello) = .ok () := by
  have hbinding : checkBinding digest entry.id 1 = .ok () := (checkBinding_eq_ok digest_hex).2 binds
  have hmax : u32Max ∉ List.range total := by
    rw [List.mem_range, total_eq]
    decide
  exact bind_eq_ok.2 ⟨download_checked, bind_eq_ok.2 ⟨hbinding, if_neg hmax⟩⟩

/-- The digits of the numbers below `a + b + c`, of which those from `a` on have five and those from
`a + b` on six. -/
lemma le_digits_blocks {a b c : ℕ} (ha : 10 ^ 4 ≤ a) (hb : 10 ^ 5 ≤ a + b) :
    a + b * 5 + c * 6 ≤ ((List.range (a + b + c)).map digitCount).sum := by
  have hone : ∀ i, 0 ≤ i → 1 ≤ digitCount i := fun i _ => one_le_digitCount i
  have hfive : ∀ i, a ≤ i → 5 ≤ digitCount i := fun i hi => by
    have := (digitCount_le_iff (n := i) (by decide : 0 < 4)).not
    omega
  have hsix : ∀ i, a + b ≤ i → 6 ≤ digitCount i := fun i hi => by
    have := (digitCount_le_iff (n := i) (by decide : 0 < 5)).not
    omega
  have h₁ := le_digits_range hone a
  have h₂ := le_digits_range hfive b
  have h₃ := le_digits_range hsix c
  rw [Nat.zero_add] at h₁
  omega

lemma hello_too_long : maxFrameBytes < (Frame.hello hello).payloadSize := by
  have hdigits : 10000 + 90000 * 5 + 70000 * 6 ≤ ((List.range total).map digitCount).sum := by
    rw [total_eq]
    exact le_digits_blocks (by decide) (by decide)
  have hsize := le_payloadSize_helloOf params (List.range total)
  rw [List.length_range] at hsize
  calc maxFrameBytes < 97 + (10000 + 90000 * 5 + 70000 * 6) +
    (total - 1) := by rw [total_eq]; decide
    _ ≤ 97 + ((List.range total).map digitCount).sum + (total - 1) :=
      Nat.add_le_add_right (Nat.add_le_add_left hdigits _) _
    _ ≤ (Frame.hello hello).payloadSize := hsize

/-- The receiver before its run: the host is its one source. -/
def start : Receiver := ⟨[.fresh digest 0], ∅, ∅, ∅, ∅, ∅, ∅⟩

lemma chunks_length : params.plan.chunks.length = total := by
  rw [params, planOf, List.length_map, List.length_range, source]

/-- The run of a viewer that was stopped after the last chunk and is started again. -/
lemma resumed : ∃ tr q, (runMultiSource params 1 start).Does tr q ∧
    (∀ indices, (⟨.completedChunkIndices, (.ok indices : Except String (List ℕ))⟩ :
      ActRecord) ∈ tr → indices = List.range total) ∧
      (⟨.send digest (.hello hello) true, SendOutcome.sent⟩ : ActRecord) ∈ tr :=
  does_hello params (.fresh digest 0) start rfl (List.range total)

end LongFilm

/-- A viewer has every chunk of a film of 44.6 GB, of which everything fits but the `Hello` that it
sends when it goes on. -/
theorem not_wire_codec : ∃ ps downloadId mediaId entry peerId,
    planDownload downloadId mediaId 1 entry peerId = .ok ps.plan ∧
      isCanonicalPeerId ps.localPeerId = true ∧ ∃ s tr q, (runMultiSource ps 1 s).Does tr q ∧
        (∀ indices, (⟨.completedChunkIndices, (.ok indices : Except String (List ℕ))⟩ : ActRecord) ∈
          tr → ∀ i ∈ indices, i < ps.plan.chunks.length) ∧ ∃ peer frame, frame.IndexFits ∧
          (⟨.send peer frame true, SendOutcome.sent⟩ : ActRecord) ∈ tr ∧
            ∀ nfc, validate nfc frame = .ok () ∧ ¬Travels nfc frame := by
  obtain ⟨tr, q, hdoes, hhad, hmem⟩ := LongFilm.resumed
  refine ⟨LongFilm.params, _, _, _, _, LongFilm.planned, LongFilm.digest_hex, LongFilm.start, tr, q,
    hdoes, fun indices hanswer i hi => ?_, LongFilm.digest, .hello LongFilm.hello, trivial, hmem,
    fun nfc => ⟨LongFilm.hello_valid nfc, fun htravels => ?_⟩⟩
  · rw [LongFilm.chunks_length]
    exact List.mem_range.1 (hhad indices hanswer ▸ hi)
  have hlong := LongFilm.hello_too_long
  have hsize := (travels_iff.1 htravels).1
  omega

/-- A `Hello` of short ids that lists few chunks fits. -/
lemma hello_fits {f : HelloFrame} (hpeer : textSize f.peerId ≤ 64)
    (hdownload : textSize f.downloadId ≤ 64) (hmedia : textSize f.mediaId ≤ 64)
    (hversion : intSize f.manifestVersion ≤ 64) (hchunks : natsSize f.haveChunks ≤ 1000000) :
    (Frame.hello f).payloadSize ≤ maxFrameBytes := by
  simp only [Frame.payloadSize, maxFrameBytes]
  omega

/-- So does an `Offer` of short ids and a short name. -/
lemma offer_fits {f : OfferFrame} (hpeer : textSize f.peerId ≤ 64)
    (hdownload : textSize f.downloadId ≤ 64) (hmedia : textSize f.mediaId ≤ 64)
    (hsha : textSize f.sha256 ≤ 64) (hblake : textSize f.blake3 ≤ 64)
    (hversion : intSize f.manifestVersion ≤ 64) (hbytes : digitCount f.totalBytes ≤ 64)
    (hsize : digitCount f.chunkSizeBytes ≤ 64) (hchunks : digitCount f.totalChunks ≤ 64)
    (hname : textSize f.filename ≤ 1000000) : (Frame.offer f).payloadSize ≤ maxFrameBytes := by
  simp only [Frame.payloadSize, maxFrameBytes]
  omega

/-- The `Hello` of a viewer that has the first two chunks of the same film. -/
def LongFilm.short : Frame := .hello (helloOf LongFilm.params [0, 1])

/-- What reads the text of that `Hello` back. -/
def LongFilm.readShort (payload : Bytes) : Except String Frame :=
  if payload = toVec LongFilm.short then .ok LongFilm.short else .error "expected value"

lemma LongFilm.carried_short : Carried id LongFilm.params.plan LongFilm.short := by
  obtain ⟨hdigest, hdownload, hmedia⟩ := LongFilm.sizes
  exact ⟨LongFilm.download_checked, LongFilm.binds, by decide,
    hello_fits hdigest.le hdownload hmedia LongFilm.version_size (by decide)⟩

lemma LongFilm.readable_short : Readable id LongFilm.readShort LongFilm.short :=
  ⟨bind_eq_ok.2 ⟨LongFilm.download_checked, bind_eq_ok.2
    ⟨(checkBinding_eq_ok LongFilm.digest_hex).2 LongFilm.binds, if_neg (by decide)⟩⟩, if_pos rfl⟩

/-- A host that computes base64. -/
def LongFilm.prims : Primitives := ⟨fun _ => LongFilm.digest, Base64.encode⟩

/-- Its `Offer` of the film. -/
def LongFilm.offer : Frame := .offer {
  peerId := LongFilm.digest
  downloadId := LongFilm.downloadId
  mediaId := LongFilm.entry.id
  manifestVersion := 1
  totalBytes := LongFilm.total * chunkSizeBytes
  chunkSizeBytes := chunkSizeBytes
  totalChunks := LongFilm.total
  sha256 := LongFilm.digest
  blake3 := LongFilm.digest
  filename := "film.mkv" }

lemma LongFilm.carried_offer : Carried id LongFilm.params.plan LongFilm.offer := by
  obtain ⟨hdigest, hdownload, hmedia⟩ := LongFilm.sizes
  have hbytes : digitCount (LongFilm.total * chunkSizeBytes) ≤ 64 := by
    rw [LongFilm.total_eq]
    decide
  have hchunks : digitCount LongFilm.total ≤ 64 := by
    rw [LongFilm.total_eq]
    decide
  exact ⟨LongFilm.download_checked, LongFilm.binds, ⟨_, Library.sanitize_film⟩,
    offer_fits hdigest.le hdownload hmedia hdigest.le hdigest.le LongFilm.version_size hbytes
      (by decide) hchunks (by decide)⟩

/-- A shorter `Hello` is read back, alone and twice in a stream, and arrives; and so does the
`Offer`. -/
theorem wire_codec_short :
    (∃ bytes, encode compactFields LongFilm.short = .ok bytes ∧
      ∀ rest, decode id LongFilm.readShort (bytes ++ rest) = .ok (LongFilm.short, bytes.length)) ∧
    (∃ bytes, encodeAll [LongFilm.short, LongFilm.short] = .ok bytes ∧
      decodeStream id LongFilm.readShort bytes =
        .ok ([LongFilm.short, LongFilm.short], bytes.length)) ∧
    Travels id LongFilm.short ∧ Travels id LongFilm.offer := by
  obtain ⟨hone, -, hall, hreceiver, hsender⟩ := wire_codec id LongFilm.readShort
  have hsize : LongFilm.short.payloadSize ≤ maxFrameBytes := LongFilm.carried_short.2.2.2
  refine ⟨(hone LongFilm.short LongFilm.readable_short).2 hsize,
    (hall [LongFilm.short, LongFilm.short] (by simp [LongFilm.readable_short])).2 (by simp [hsize]),
      ?_, ?_⟩
  · obtain ⟨tr, q, hdoes, -, hmem⟩ :=
      does_hello LongFilm.params (.fresh LongFilm.digest 0) LongFilm.start rfl [0, 1]
    exact (hreceiver LongFilm.params _ _ _ _ _ LongFilm.planned LongFilm.digest_hex _ _ tr q hdoes
      _ _ _ _ hmem trivial).2 LongFilm.carried_short
  · -- the session is cancelled when it has sent its `Offer`
    have hdoes : (SenderSession.runAfterHello LongFilm.prims LongFilm.params.plan
        (helloOf LongFilm.params [0, 1]) "film.mkv" 1).Does
        [⟨.send LongFilm.offer, SendOutcome.cancelled⟩] (.ret (.error .cancelled)) := .cons (.nil _)
    exact (hsender LongFilm.prims LongFilm.params.plan _ _ _ _ _ LongFilm.planned
      (fun _ => rfl) _ _ _ _ _ hdoes (by simp [SenderEffect.Answers]) _ _
        (List.mem_singleton_self _) trivial).2 LongFilm.carried_offer

end Locast.Transfer
