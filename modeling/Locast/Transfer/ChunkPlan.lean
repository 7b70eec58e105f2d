import Locast.Lib.Chunked
import Locast.Transfer.Partition

/-!
# The plan of a published file (`room/chunk_plan.rs`)

The host streams a file once and hashes it, and each of its chunks as it comes to its end.
-/

namespace Locast.Transfer

open Locast.Lib
open Protocol (MediaEntry)

/-- A hash of bytes. -/
abbrev Hasher : Type 1 := Streaming UInt8 (List UInt8)

def hexDigits : List Char :=
  ['0', '1', '2', '3', '4', '5', '6', '7', '8', '9', 'a', 'b', 'c', 'd', 'e', 'f']

/-- `hex::encode`. -/
def hexEncode (bytes : List UInt8) : String :=
  String.ofList
    (bytes.flatMap fun b => [hexDigits.getD (b.toNat / 16) '0', hexDigits.getD (b.toNat % 16) '0'])

structure ChunkPlan where
  fullSha256 : String
  fullBlake3 : String
  perChunkSha256 : List String
  bytesRead : ℕ

def ChunkPlan.totalChunks (plan : ChunkPlan) : ℕ := asU32 plan.perChunkSha256.length

inductive ChunkPlanError where
  | emptyPath
  | emptyFile
  | io (e : String)

section

variable (sha blake : Hasher)

/-- The chunk that is being hashed, and those that are done. -/
structure Chunking where
  current : sha.State
  bytesIntoCurrent : ℕ
  lt : bytesIntoCurrent < chunkSizeBytes
  perChunk : List String

variable {sha}

/-- One turn of the inner loop: `taken` is what goes to the current chunk. -/
def Chunking.take (s : Chunking sha) (taken : List UInt8)
    (h : s.bytesIntoCurrent + taken.length ≤ chunkSizeBytes) :
    Chunking sha :=
  if hfull : s.bytesIntoCurrent + taken.length = chunkSizeBytes then
    ⟨sha.init, 0, by decide, s.perChunk ++ [hexEncode (sha.finalize (sha.update s.current taken))]⟩
  else ⟨sha.update s.current taken, s.bytesIntoCurrent + taken.length,
    lt_of_le_of_ne h hfull, s.perChunk⟩

/-- The inner loop, over what was read and is not hashed yet. -/
def Chunking.feed (s : Chunking sha) (piece : List UInt8) : Chunking sha :=
  if piece = [] then s
  else
    (s.take (piece.take (chunkSizeBytes - s.bytesIntoCurrent)) (by
      have := s.lt
      rw [List.length_take]
      omega)).feed (piece.drop (chunkSizeBytes - s.bytesIntoCurrent))
termination_by piece.length
decreasing_by
  rename_i hne
  have := s.lt
  have := List.length_pos_iff.2 hne
  rw [List.length_drop]
  omega

variable (sha)

/-- The variables of the outer loop. -/
structure Planner where
  fullSha : sha.State
  fullBlake : blake.State
  chunking : Chunking sha
  bytesRead : ℕ

variable {sha blake}

def Planner.read (s : Planner sha blake) (piece : List UInt8) : Planner sha blake where
  fullSha := sha.update s.fullSha piece
  fullBlake := blake.update s.fullBlake piece
  chunking := s.chunking.feed piece
  bytesRead := s.bytesRead + piece.length

/-- The outer loop: what each `read` returns, until it returns nothing. -/
def Planner.run (s : Planner sha blake) : List (Except String (List UInt8)) →
    Except ChunkPlanError (Planner sha blake)
  | [] => .ok s
  | .error e :: _ => .error (.io e)
  | .ok piece :: reads => if piece = [] then .ok s else (s.read piece).run reads

/-- The last chunk, if it is shorter than the others. -/
def Planner.plan (s : Planner sha blake) : ChunkPlan where
  fullSha256 := hexEncode (sha.finalize s.fullSha)
  fullBlake3 := hexEncode (blake.finalize s.fullBlake)
  perChunkSha256 :=
    if 0 < s.chunking.bytesIntoCurrent then
      s.chunking.perChunk ++ [hexEncode (sha.finalize s.chunking.current)]
    else s.chunking.perChunk
  bytesRead := s.bytesRead

variable (sha blake)

def Planner.start : Planner sha blake := ⟨sha.init, blake.init, ⟨sha.init, 0, by decide, []⟩, 0⟩

/-- `plan_file`, of a file with its size and what the reads return. -/
def planFile (path : String) (metadata : Except String ℕ) (opened : Except String Unit)
    (reads : List (Except String (List UInt8))) : Except ChunkPlanError ChunkPlan :=
  if path = "" then .error .emptyPath
  else
    match metadata with
    | .error e => .error (.io e)
    | .ok size =>
      if size = 0 then .error .emptyFile
      else
        match opened with
        | .error e => .error (.io e)
        | .ok () => ((Planner.start sha blake).run reads).map Planner.plan

end

/-! ### The entry of a file -/

/-- `derive_peer_id`. -/
def derivePeerId (sha : Hasher) (publicKey : List UInt8) : String := hexEncode (sha.hash publicKey)

/-- What the entry says besides the plan. -/
structure HostRow where
  id : String
  filename : String
  mime : String
  durationMs : ℕ
  dimensions : Option Protocol.Dimensions
  codecs : Option Protocol.Codecs

/-- The entry that `build_manifest_for` makes of a row and its plan. -/
def hostEntry (row : HostRow) (peerId : String) (plan : ChunkPlan) : MediaEntry where
  id := row.id
  filename := row.filename
  sha256 := plan.fullSha256
  blake3 := plan.fullBlake3
  sizeBytes := plan.bytesRead
  mime := row.mime
  durationMs := row.durationMs
  dimensions := row.dimensions
  codecs := row.codecs
  sources := [⟨peerId, none, 0, chunkSizeBytes, plan.totalChunks, plan.perChunkSha256⟩]

/-! ### What the loops compute -/

section

variable {sha blake : Hasher}

/-- The state of the loops when so much of the file was read. -/
structure Chunking.Fed (s : Chunking sha) (full : List (List UInt8))
    (tail : List UInt8) : Prop where
  size : ∀ p ∈ full, p.length = chunkSizeBytes
  into : tail.length = s.bytesIntoCurrent
  current : s.current = sha.update sha.init tail
  perChunk : s.perChunk = full.map fun p => hexEncode (sha.hash p)

/-- A turn of the inner loop completes a chunk or makes it longer. -/
lemma Chunking.Fed.take {s : Chunking sha} {full : List (List UInt8)} {tail : List UInt8}
    (hfed : s.Fed full tail) (taken : List UInt8)
    (h : s.bytesIntoCurrent + taken.length ≤ chunkSizeBytes) :
    ∃ full' tail', (s.take taken h).Fed full' tail' ∧
      full'.flatten ++ tail' = full.flatten ++ tail ++ taken := by
  have hupdate : sha.update s.current taken = sha.update sha.init (tail ++ taken) := by
    rw [hfed.current, sha.update_append]
  have hlength : (tail ++ taken).length = s.bytesIntoCurrent + taken.length := by
    rw [List.length_append, hfed.into]
  rw [Chunking.take]
  split_ifs with hfull
  · refine ⟨full ++ [tail ++ taken], [], ⟨?_, rfl, (sha.update_nil _).symm, ?_⟩, ?_⟩
    · intro p hp
      rcases List.mem_append.1 hp with hp | hp
      · exact hfed.size p hp
      · rw [List.mem_singleton.1 hp, hlength, hfull]
    · rw [List.map_append, List.map_singleton, ← hfed.perChunk, hupdate]
      rfl
    · rw [List.flatten_append, List.flatten_singleton, List.append_nil, List.append_assoc]
  · exact ⟨full, tail ++ taken, ⟨hfed.size, hlength, hupdate, hfed.perChunk⟩,
      (List.append_assoc _ _ _).symm⟩

/-- **The inner loop** takes what was read to the chunks. -/
lemma Chunking.Fed.feed {s : Chunking sha} {full : List (List UInt8)} {tail : List UInt8}
    (hfed : s.Fed full tail) (piece : List UInt8) :
    ∃ full' tail', (s.feed piece).Fed full' tail' ∧
      full'.flatten ++ tail' = full.flatten ++ tail ++ piece := by
  induction hn : piece.length using Nat.strong_induction_on generalizing s full tail piece with
  | _ n ih =>
    rw [Chunking.feed]
    split_ifs with hnil
    · exact ⟨full, tail, hfed, by rw [hnil, List.append_nil]⟩
    · have hlt := s.lt
      have hpos := List.length_pos_iff.2 hnil
      obtain ⟨full₁, tail₁, hfed₁, heq₁⟩ := hfed.take
        (piece.take (chunkSizeBytes - s.bytesIntoCurrent)) (by rw [List.length_take]; omega)
      obtain ⟨full₂, tail₂, hfed₂, heq₂⟩ := ih _ (by rw [← hn, List.length_drop]; omega) hfed₁
        (piece.drop (chunkSizeBytes - s.bytesIntoCurrent)) rfl
      refine ⟨full₂, tail₂, hfed₂, ?_⟩
      rw [heq₂, heq₁, List.append_assoc (full.flatten ++ tail), List.take_append_drop]

/-- What the outer loop knows when it has read so much. -/
structure Planner.Has (s : Planner sha blake) (content : List UInt8) : Prop where
  fullSha : s.fullSha = sha.update sha.init content
  fullBlake : s.fullBlake = blake.update blake.init content
  chunks : ∃ full tail, s.chunking.Fed full tail ∧ full.flatten ++ tail = content
  bytesRead : s.bytesRead = content.length

lemma Planner.has_start : (Planner.start sha blake).Has [] :=
  ⟨(sha.update_nil _).symm, (blake.update_nil _).symm,
    ⟨[], [], ⟨by simp, rfl, (sha.update_nil _).symm, rfl⟩, rfl⟩, rfl⟩

lemma Planner.Has.read {s : Planner sha blake} {content : List UInt8} (h : s.Has content)
    (piece : List UInt8) : (s.read piece).Has (content ++ piece) := by
  obtain ⟨full, tail, hfed, rfl⟩ := h.chunks
  refine ⟨?_, ?_, hfed.feed piece, ?_⟩
  · rw [Planner.read, h.fullSha, sha.update_append]
  · rw [Planner.read, h.fullBlake, blake.update_append]
  · rw [List.length_append, ← h.bytesRead]
    rfl

/-- **The outer loop** reads its file, however it comes in. -/
lemma Planner.Has.run {s : Planner sha blake} {content : List UInt8} (h : s.Has content)
    {pieces : List (List UInt8)} (hpieces : ∀ p ∈ pieces, p ≠ []) :
    ∃ s', s.run (pieces.map .ok ++ [.ok []]) = .ok s' ∧ s'.Has (content ++ pieces.flatten) := by
  induction pieces generalizing s content with
  | nil => exact ⟨s, rfl, by rwa [List.flatten_nil, List.append_nil]⟩
  | cons p pieces ih =>
    obtain ⟨s', hrun, hhas⟩ := ih (h.read p) fun q hq => hpieces q (List.mem_cons_of_mem _ hq)
    refine ⟨s', ?_, ?_⟩
    · rw [List.map_cons, List.cons_append, Planner.run, if_neg (hpieces p List.mem_cons_self), hrun]
    · rw [List.flatten_cons, ← List.append_assoc]
      exact hhas

/-- **The plan of a file, by definition**: the hashes of the whole and of its slices. -/
def plainPlan (sha blake : Hasher) (content : List UInt8) : ChunkPlan where
  fullSha256 := hexEncode (sha.hash content)
  fullBlake3 := hexEncode (blake.hash content)
  perChunkSha256 := (slices chunkSizeBytes content).map fun p => hexEncode (sha.hash p)
  bytesRead := content.length

lemma Planner.Has.plan_eq {s : Planner sha blake} {content : List UInt8} (h : s.Has content) :
    s.plan = plainPlan sha blake content := by
  obtain ⟨full, tail, hfed, rfl⟩ := h.chunks
  have hshort : tail.length < chunkSizeBytes := hfed.into ▸ s.chunking.lt
  have hslices := slices_flatten (by decide) hfed.size hshort
  have hhashes : (if 0 < s.chunking.bytesIntoCurrent then
      s.chunking.perChunk ++ [hexEncode (sha.finalize s.chunking.current)]
        else s.chunking.perChunk) = (slices chunkSizeBytes (full.flatten ++ tail)).map fun p =>
          hexEncode (sha.hash p) := by
    rw [hslices, List.map_append, ← hfed.perChunk, ← hfed.into, hfed.current]
    cases tail with
    | nil => exact (List.append_nil _).symm
    | cons a tail => rfl
  rw [Planner.plan, plainPlan, h.fullSha, h.fullBlake, h.bytesRead, hhashes]
  rfl

/-- **A file that is read to its end is planned.** -/
lemma planFile_eq {path : String} (hpath : path ≠ "") {content : List UInt8}
    (hcontent : content ≠ []) {pieces : List (List UInt8)} (hpieces : ∀ p ∈ pieces, p ≠ [])
    (hsplit : pieces.flatten = content) :
    planFile sha blake path (.ok content.length) (.ok ()) (pieces.map .ok ++ [.ok []]) =
      .ok (plainPlan sha blake content) := by
  obtain ⟨s, hrun, hhas⟩ := (@Planner.has_start sha blake).run hpieces
  rw [List.nil_append, hsplit] at hhas
  rw [planFile, if_neg hpath, if_neg (List.length_pos_iff.2 hcontent).ne', hrun, ← hhas.plan_eq]
  rfl

/-! ### What the viewer makes of it -/

lemma is64LowercaseHex_hexEncode {bytes : List UInt8} (h : bytes.length = 32) :
    is64LowercaseHex (hexEncode bytes) = true := by
  have hdigit : ∀ n < 16, ((hexDigits.getD n '0').isDigit ||
      ('a' ≤ hexDigits.getD n '0' && hexDigits.getD n '0' ≤ 'f')) = true := by decide
  refine is64LowercaseHex_ofList ?_ (List.all_eq_true.2 fun c hc => ?_)
  · have htwo : ∀ n ∈ bytes.map fun b => [hexDigits.getD (b.toNat / 16) '0',
        hexDigits.getD (b.toNat % 16) '0'].length, n = 2 := by
      intro n hn
      obtain ⟨b, -, rfl⟩ := List.mem_map.1 hn
      rfl
    rw [List.length_flatMap, List.eq_replicate_of_mem htwo, List.sum_replicate, List.length_map, h]
    rfl
  · obtain ⟨b, -, hc⟩ := List.mem_flatMap.1 hc
    have hlt := b.toNat_lt
    rcases List.mem_cons.1 hc with rfl | hc
    · exact hdigit _ (by omega)
    · rw [List.mem_singleton.1 hc]
      exact hdigit _ (Nat.mod_lt _ (by decide))

/-- The digests of a hash have 32 bytes. -/
def Digests (h : Hasher) : Prop := ∀ s, (h.finalize s).length = 32

/-- The entry of a planned file. -/
def plainEntry (sha blake : Hasher) (row : HostRow) (publicKey content : List UInt8) : MediaEntry :=
  hostEntry row (derivePeerId sha publicKey) (plainPlan sha blake content)

/-- **Each chunk of the plan is the slice of its index.** -/
structure DownloadPlan.Slices (plan : DownloadPlan) (sha : Hasher)
    (content : List UInt8) : Prop where
  length : plan.chunks.length = sliceCount chunkSizeBytes content
  index : ∀ (i : ℕ) (chunk : PlannedChunk), plan.chunks[i]? = some chunk → chunk.index = i
  offset : ∀ (i : ℕ) (chunk : PlannedChunk), plan.chunks[i]? = some chunk →
    chunk.offset = i * chunkSizeBytes
  bytes : ∀ (i : ℕ) (chunk : PlannedChunk), plan.chunks[i]? = some chunk →
    (content.drop chunk.offset).take chunk.length = slice chunkSizeBytes content i ∧
      chunk.length = (slice chunkSizeBytes content i).length ∧ 0 < chunk.length
  sha256 : ∀ (i : ℕ) (chunk : PlannedChunk), plan.chunks[i]? = some chunk →
    chunk.sha256 = hexEncode (sha.hash (slice chunkSizeBytes content i))

lemma sliceCount_lt_iff (content : List UInt8) :
    sliceCount chunkSizeBytes content < 2 ^ 32 ↔
      content.length ≤ (2 ^ 32 - 1) * chunkSizeBytes := by
  rw [sliceCount, chunkSizeBytes_eq]
  omega

lemma length_slice (content : List UInt8) (i : ℕ) : (slice chunkSizeBytes content i).length =
    min chunkSizeBytes (content.length - i * chunkSizeBytes) := by
  rw [slice, List.length_take, List.length_drop]

variable {row : HostRow} {publicKey content : List UInt8} {downloadId mediaId : String}
  {version : ℤ}

/-- The source of the host. -/
def plainSource (sha blake : Hasher) (publicKey content : List UInt8) : Protocol.Source :=
  ⟨derivePeerId sha publicKey, none, 0, chunkSizeBytes, (plainPlan sha blake content).totalChunks,
    (plainPlan sha blake content).perChunkSha256⟩

lemma plannable_plainEntry (hsha : Digests sha) (hblake : Digests blake) (hcontent : content ≠ [])
    (hname : row.filename ≠ "") (hsmall : sliceCount chunkSizeBytes content < 2 ^ 32) :
    Plannable (plainEntry sha blake row publicKey content) (derivePeerId sha publicKey)
      (plainSource sha blake publicKey content) := by
  have hsize := (List.length_pos_iff.2 hcontent).ne'
  have hcount : (plainPlan sha blake content).perChunkSha256.length =
      sliceCount chunkSizeBytes content := by
    rw [plainPlan, List.length_map, length_slices]
  refine ⟨⟨rfl, ?_, ?_, fun hash hmem => ?_⟩, hname, is64LowercaseHex_hexEncode (hsha _),
    is64LowercaseHex_hexEncode (hblake _), hsize, is64LowercaseHex_hexEncode (hsha _), ?_⟩
  · rw [plainSource, ChunkPlan.totalChunks, hcount, asU32, Nat.mod_eq_of_lt hsmall]
  · rw [plainSource, ChunkPlan.totalChunks, hcount, totalChunksFor]
    exact (if_neg hsize).symm
  · obtain ⟨p, -, rfl⟩ := List.mem_map.1 hmem
    exact is64LowercaseHex_hexEncode (hsha _)
  · exact List.find?_cons_of_pos (beq_self_eq_true _)

/-- The plan of the entry has the slices. -/
lemma slices_planOf (hsmall : sliceCount chunkSizeBytes content < 2 ^ 32) :
    (planOf downloadId mediaId version (plainEntry sha blake row publicKey content)
      (derivePeerId sha publicKey) (plainSource sha blake publicKey content)).Slices sha
        content := by
  have htotal : (plainSource sha blake publicKey content).totalChunks =
      sliceCount chunkSizeBytes content := by
    rw [plainSource, ChunkPlan.totalChunks, plainPlan, List.length_map, length_slices, asU32,
      Nat.mod_eq_of_lt hsmall]
  have hget : ∀ i chunk,
      (planOf downloadId mediaId version (plainEntry sha blake row publicKey content)
        (derivePeerId sha publicKey) (plainSource sha blake publicKey content)).chunks[i]? =
          some chunk →
        i < sliceCount chunkSizeBytes content ∧ chunk = plannedChunk content.length
          (sliceCount chunkSizeBytes content) chunkSizeBytes
            (plainPlan sha blake content).perChunkSha256 i := by
    intro i chunk hi
    exact plannedChunk_getElem? (by rw [planOf, htotal] at hi; exact hi)
  have hcount := sliceCount_lt_iff content
  refine ⟨?_, fun i chunk hi => ?_, fun i chunk hi => ?_, fun i chunk hi => ?_,
    fun i chunk hi => ?_⟩
  · rw [planOf, List.length_map, List.length_range, htotal]
  · rw [(hget i chunk hi).2]
    rfl
  · rw [(hget i chunk hi).2]
    rfl
  · obtain ⟨hlt, rfl⟩ := hget i chunk hi
    have hlength : (plannedChunk content.length (sliceCount chunkSizeBytes content) chunkSizeBytes
        (plainPlan sha blake content).perChunkSha256 i).length =
          (slice chunkSizeBytes content i).length := by
      rw [length_slice, plannedChunk]
      dsimp only [asU32]
      rw [sliceCount, chunkSizeBytes_eq] at *
      split_ifs <;> omega
    refine ⟨?_, hlength, ?_⟩
    · rw [hlength, length_slice, slice]
      exact List.take_eq_take_iff.2 (by rw [List.length_drop]; dsimp only [plannedChunk]; omega)
    · rw [hlength, length_slice]
      rw [sliceCount, chunkSizeBytes_eq] at hlt
      rw [chunkSizeBytes_eq]
      omega
  · obtain ⟨hlt, rfl⟩ := hget i chunk hi
    have hhash : (plainPlan sha blake content).perChunkSha256[i]? =
        some (hexEncode (sha.hash (slice chunkSizeBytes content i))) := by
      rw [plainPlan, List.getElem?_map, slices, List.getElem?_map, List.getElem?_range hlt]
      rfl
    rw [plannedChunk, List.getD_eq_getElem?_getD, hhash]
    rfl

/-- **The viewer accepts the entry** of every file whose chunks a `u32` counts, and of no other. -/
lemma accepted_iff (hsha : Digests sha) (hblake : Digests blake) (hcontent : content ≠ [])
    (hname : row.filename ≠ "") :
    (∃ plan, planDownload downloadId mediaId version (plainEntry sha blake row publicKey content)
      (derivePeerId sha publicKey) = .ok plan ∧ plan.Slices sha content) ↔
      content.length ≤ (2 ^ 32 - 1) * chunkSizeBytes := by
  rw [← sliceCount_lt_iff]
  constructor
  · rintro ⟨plan, hplan, hslices⟩
    rw [← hslices.length]
    exact (layout_of_planDownload hplan).count
  · exact fun hsmall =>
      ⟨_, planDownload_eq_ok.2 ⟨_, plannable_plainEntry hsha hblake hcontent hname hsmall, rfl⟩,
      slices_planOf hsmall⟩

/-- **A published file is planned as it is defined**, however the reads split it; and the viewer
accepts its entry, with the slices as chunks, exactly when they are fewer than `2 ^ 32`. -/
theorem published_plan_iff (hsha : Digests sha) (hblake : Digests blake) {path : String}
    (hpath : path ≠ "") (hcontent : content ≠ []) {pieces : List (List UInt8)}
    (hpieces : ∀ p ∈ pieces, p ≠ [])
    (hsplit : pieces.flatten = content) (hname : row.filename ≠ "") :
    ∃ made, planFile sha blake path (.ok content.length) (.ok ())
      (pieces.map .ok ++ [.ok []]) = .ok made ∧
      (made.perChunkSha256 = (slices chunkSizeBytes content).map fun p => hexEncode (sha.hash p)) ∧
      (∀ p ∈ slices chunkSizeBytes content, p ≠ []) ∧
      made.fullSha256 = hexEncode (sha.hash content) ∧
        made.fullBlake3 = hexEncode (blake.hash content) ∧
      made.bytesRead = content.length ∧
      ((∃ plan, planDownload downloadId mediaId version
        (hostEntry row (derivePeerId sha publicKey) made) (derivePeerId sha publicKey) = .ok plan ∧
          plan.Slices sha content) ↔
          content.length ≤ (2 ^ 32 - 1) * chunkSizeBytes) := by
  refine ⟨_, planFile_eq hpath hcontent hpieces hsplit, rfl, fun p hp => ?_, rfl, rfl, rfl,
    accepted_iff hsha hblake hcontent hname⟩
  obtain ⟨i, hi, rfl⟩ := List.mem_map.1 hp
  rw [List.mem_range, sliceCount, chunkSizeBytes_eq] at hi
  refine List.ne_nil_of_length_pos ?_
  rw [length_slice, chunkSizeBytes_eq]
  omega

end

namespace Published

def publicKey : List UInt8 :=
  [0xd7, 0x5a, 0x98, 0x01, 0x82, 0xb1, 0x0a, 0xb7, 0xd5, 0x4b, 0xfe, 0xd3, 0xc9, 0x64, 0x07, 0x3a,
    0x0e, 0xe1, 0x72, 0xf3, 0xda, 0xa6, 0x23, 0x25, 0xaf, 0x02, 0x1a, 0x68, 0xf7, 0x07, 0x51, 0x1a]

def abc : List UInt8 := [0x61, 0x62, 0x63]

/-- SHA-256 on a file and on the key of its host. -/
def sha256 (s : List UInt8) : List UInt8 :=
  if s = abc then
    [0xba, 0x78, 0x16, 0xbf, 0x8f, 0x01, 0xcf, 0xea, 0x41, 0x41, 0x40, 0xde, 0x5d, 0xae, 0x22, 0x23,
      0xb0, 0x03, 0x61, 0xa3, 0x96, 0x17, 0x7a, 0x9c, 0xb4, 0x10, 0xff, 0x61, 0xf2,
        0x00, 0x15, 0xad]
  else if s = publicKey then
    [0x21, 0xfe, 0x31, 0xdf, 0xa1, 0x54, 0xa2, 0x61, 0x62, 0x6b, 0xf8, 0x54, 0x04, 0x6f, 0xd2, 0x27,
      0x1b, 0x7b, 0xed, 0x4b, 0x6a, 0xbe, 0x45, 0xaa, 0x58, 0x87, 0x7e, 0xf4, 0x7f,
        0x97, 0x21, 0xb9]
  else List.replicate 32 0

/-- BLAKE3 on that file. -/
def blake3 (s : List UInt8) : List UInt8 :=
  if s = abc then
    [0x64, 0x37, 0xb3, 0xac, 0x38, 0x46, 0x51, 0x33, 0xff, 0xb6, 0x3b, 0x75, 0x27, 0x3a, 0x8d, 0xb5,
      0x48, 0xc5, 0x58, 0x46, 0x5d, 0x79, 0xdb, 0x03, 0xfd, 0x35, 0x9c, 0x6c, 0xd5,
        0xbd, 0x9d, 0x85]
  else List.replicate 32 0

/-- A hash that waits for all of its input. -/
def hasher (digest : List UInt8 → List UInt8) : Hasher where
  State := List UInt8
  init := []
  update s a := s ++ a
  finalize := digest
  update_nil := List.append_nil
  update_append := List.append_assoc

lemma digests_sha256 : Digests (hasher sha256) := by
  intro s
  change (sha256 s).length = 32
  unfold sha256
  split_ifs <;> rfl

lemma digests_blake3 : Digests (hasher blake3) := by
  intro s
  change (blake3 s).length = 32
  unfold blake3
  split_ifs <;> rfl

def row : HostRow :=
  ⟨"11111111-1111-4111-8111-111111111111", "abc.mkv", "video/x-matroska", 0, none, none⟩

/-- A chunk of zeros, and three bytes more. -/
def film : List UInt8 := List.replicate chunkSizeBytes 0 ++ abc

lemma length_film : film.length = chunkSizeBytes + 3 := by
  rw [film, List.length_append, List.length_replicate]
  rfl

/-- A read that ends behind the first chunk, and the rest. -/
def pieces : List (List UInt8) := [List.replicate chunkSizeBytes 0 ++ [0x61], [0x62, 0x63]]

/-- The entry of a file of two chunks, read in two pieces, is accepted. -/
theorem published_plan_film : ∃ made,
    planFile (hasher sha256) (hasher blake3) "/library/abc.mkv" (.ok film.length) (.ok ())
      (pieces.map .ok ++ [.ok []]) = .ok made ∧ made.perChunkSha256.length = 2 ∧
    ∃ plan, planDownload "d" "m" 1 (hostEntry row (derivePeerId (hasher sha256) publicKey) made)
      (derivePeerId (hasher sha256) publicKey) = .ok plan ∧ plan.Slices (hasher sha256) film := by
  have hfilm : film ≠ [] := List.ne_nil_of_length_pos (by rw [length_film]; exact Nat.succ_pos _)
  have hpieces : ∀ p ∈ pieces, p ≠ [] := by simp [pieces]
  have hsplit : pieces.flatten = film := by simp [pieces, film, abc]
  obtain ⟨made, hmade, hhashes, -, -, -, -, haccepted⟩ :=
    @published_plan_iff (hasher sha256) (hasher blake3) row publicKey film "d" "m" 1 digests_sha256
      digests_blake3 "/library/abc.mkv" (by decide) hfilm pieces hpieces hsplit (by decide)
  refine ⟨made, hmade, ?_, haccepted.2 (by rw [length_film]; decide)⟩
  rw [hhashes, List.length_map, length_slices, sliceCount, length_film]
  decide

/-- A petabyte, which has `2 ^ 32` chunks. -/
def petabyte : List UInt8 := List.replicate (2 ^ 50) 0

/-- **A petabyte is planned and not accepted**, when it is read in blocks of 64 KiB. -/
theorem not_published_plan :
    planFile (hasher sha256) (hasher blake3) "/library/abc.mkv" (.ok petabyte.length) (.ok ())
      ((List.replicate (2 ^ 34) (List.replicate (2 ^ 16) 0)).map .ok ++ [.ok []]) =
        .ok (plainPlan (hasher sha256) (hasher blake3) petabyte) ∧
    ¬∃ plan,
      planDownload "d" "m" 1 (plainEntry (hasher sha256) (hasher blake3) row publicKey petabyte)
      (derivePeerId (hasher sha256) publicKey) = .ok plan ∧
        plan.Slices (hasher sha256) petabyte := by
  have hlength : petabyte.length = 2 ^ 50 := List.length_replicate
  have hne : petabyte ≠ [] := List.ne_nil_of_length_pos (by rw [hlength]; decide)
  refine ⟨planFile_eq (by decide) hne (fun p hp => ?_) ?_, ?_⟩
  · rw [List.eq_of_mem_replicate hp]
    exact List.ne_nil_of_length_pos (by rw [List.length_replicate]; decide)
  · rw [List.flatten_replicate_replicate]
    rfl
  · rw [accepted_iff digests_sha256 digests_blake3 hne (by decide), hlength, chunkSizeBytes_eq]
    decide

end Published

end Locast.Transfer
