import Locast.Lib.Base64
import Locast.Protocol.Manifest
import Locast.Transfer.StoreOps
import Mathlib.Algebra.BigOperators.Group.List.Basic

/-!
# The plan of a download

`plan_download` binds a download to one source of a verified manifest entry and says where each
chunk lies in the file and which SHA-256 it has.  `Layout` is what every accepted plan has: the
chunks stand in order and without a gap.
-/

namespace Locast.Transfer

open Locast.Lib
open Protocol (MediaEntry)

/-- What is expected of one chunk. -/
structure PlannedChunk where
  index : ℕ
  offset : ℕ
  length : ℕ
  sha256 : String
  deriving DecidableEq

structure SelectedSource where
  peerId : String
  source : Protocol.Source
  deriving DecidableEq

structure PlannedSource where
  chunkSize : ℕ
  totalChunks : ℕ
  deriving DecidableEq

structure DownloadPlan where
  downloadId : String
  mediaId : String
  sha256 : String
  blake3 : String
  sizeBytes : ℕ
  source : SelectedSource
  sourceMeta : PlannedSource
  chunks : List PlannedChunk
  manifestVersion : ℤ
  deriving DecidableEq

/-- The closed set of planner rejections. -/
inductive PlanError where
  | missingField (field : String)
  | sourceNotFound
  | invalidPeerId
  | invalidSize (size : ℕ)
  | invalidChunkSize (chunkSize expected : ℕ)
  | chunkHashCountMismatch (hashes total : ℕ)
  | totalChunksMismatch (declared expected : ℕ)
  | invalidChunkHash (index : ℕ)
  deriving DecidableEq

def PlanError.display : PlanError → String
  | missingField field => "media entry missing required field: " ++ field
  | sourceNotFound => "source for peer_id not found in media entry"
  | invalidPeerId => "invalid peer_id: must be 64 lowercase hex chars"
  | invalidSize size => "invalid size_bytes: " ++ toString size
  | invalidChunkSize chunkSize expected =>
    "invalid chunk_size: " ++ toString chunkSize ++ " (expected " ++ toString expected ++ ")"
  | chunkHashCountMismatch hashes total => "chunk_hashes length " ++ toString hashes ++
      " does not match total_chunks " ++ toString total
  | totalChunksMismatch declared expected => "total_chunks " ++ toString declared ++
      " does not match ceil(size / chunk_size) = " ++ toString expected
  | invalidChunkHash index =>
    "chunk_hashes[" ++ toString index ++ "] is not a valid SHA-256 hex digest"

/-- `is_64_lowercase_hex`. -/
def is64LowercaseHex (s : String) : Bool :=
  s.utf8ByteSize == 64 && s.toList.all fun c => c.isDigit || ('a' ≤ c && c ≤ 'f')

lemma is64LowercaseHex_ofList {l : List Char} (hlen : l.length = 64)
    (hall : (l.all fun c => c.isDigit || ('a' ≤ c && c ≤ 'f')) = true) :
    is64LowercaseHex (String.ofList l) = true := by
  have hsmall : ∀ c ∈ l, c.toNat ≤ 127 := by
    intro c hc
    have hhex := List.all_eq_true.1 hall c hc
    rw [Bool.or_eq_true, Bool.and_eq_true, decide_eq_true_eq, decide_eq_true_eq, Char.isDigit,
      Bool.and_eq_true, decide_eq_true_eq, decide_eq_true_eq] at hhex
    rcases hhex with ⟨-, hle⟩ | ⟨-, hle⟩
    · exact (UInt32.le_iff_toNat_le.1 hle).trans (by decide)
    · exact (UInt32.le_iff_toNat_le.1 hle).trans (by decide)
  rw [is64LowercaseHex, Base64.utf8ByteSize_ofList_ascii hsmall, hlen, String.toList_ofList, hall]
  rfl

def selectSource (entry : MediaEntry) (peerId : String) : Except PlanError SelectedSource :=
  if !isCanonicalPeerId peerId then .error .invalidPeerId
  else
    match entry.sources.find? fun s => s.peerId == peerId with
    | none => .error .sourceNotFound
    | some source => .ok ⟨peerId, source⟩

def totalChunksFor (size chunkSize : ℕ) : ℕ :=
  if size = 0 then 0 else asU32 ((size + chunkSize - 1) / chunkSize)

def validateSourceShape (source : Protocol.Source) : Except PlanError PlannedSource :=
  if source.chunkSize ≠ chunkSizeBytes then
    .error (.invalidChunkSize source.chunkSize chunkSizeBytes)
  else if source.chunkHashes.length ≠ source.totalChunks then
    .error (.chunkHashCountMismatch source.chunkHashes.length source.totalChunks)
  else .ok ⟨source.chunkSize, source.totalChunks⟩

/-- The first hash that is not a digest. -/
def invalidHash : ℕ → List String → Option ℕ
  | _, [] => none
  | i, hash :: hashes => if is64LowercaseHex hash then invalidHash (i + 1) hashes else some i

/-- The chunk of an index: all but the last are full. -/
def plannedChunk (sizeBytes total chunkSize : ℕ) (hashes : List String) (index : ℕ) :
    PlannedChunk where
  index := index
  offset := index * chunkSize
  length := if index + 1 = total then asU32 (sizeBytes - index * chunkSize) else chunkSize
  sha256 := hashes.getD index ""

def planDownload (downloadId mediaId : String) (manifestVersion : ℤ) (entry : MediaEntry)
    (peerId : String) : Except PlanError DownloadPlan :=
  if entry.filename = "" then .error (.missingField "filename")
  else if !is64LowercaseHex entry.sha256 then .error (.missingField "sha256")
  else if !is64LowercaseHex entry.blake3 then .error (.missingField "blake3")
  else if entry.sizeBytes = 0 then .error (.invalidSize entry.sizeBytes)
  else
    match selectSource entry peerId with
    | .error e => .error e
    | .ok selected =>
      match validateSourceShape selected.source with
      | .error e => .error e
      | .ok shape =>
        let expected := totalChunksFor entry.sizeBytes shape.chunkSize
        if shape.totalChunks ≠ expected then
          .error (.totalChunksMismatch shape.totalChunks expected)
        else
          match invalidHash 0 selected.source.chunkHashes with
          | some index => .error (.invalidChunkHash index)
          | none => .ok {
              downloadId := downloadId
              mediaId := mediaId
              sha256 := entry.sha256
              blake3 := entry.blake3
              sizeBytes := entry.sizeBytes
              source := selected
              sourceMeta := shape
              chunks := (List.range shape.totalChunks).map
                (plannedChunk entry.sizeBytes shape.totalChunks shape.chunkSize
                  selected.source.chunkHashes)
              manifestVersion := manifestVersion }

/-! ### What is accepted -/

/-- The source describes the file as the planner expects it. -/
structure Describes (entry : MediaEntry) (source : Protocol.Source) : Prop where
  chunkSize : source.chunkSize = chunkSizeBytes
  count : source.chunkHashes.length = source.totalChunks
  total : source.totalChunks = totalChunksFor entry.sizeBytes chunkSizeBytes
  hashes : ∀ hash ∈ source.chunkHashes, is64LowercaseHex hash = true

/-- An entry that a download can be planned for, and its source. -/
structure Plannable (entry : MediaEntry) (peerId : String) (source : Protocol.Source) : Prop
    extends Describes entry source where
  filename : entry.filename ≠ ""
  sha256 : is64LowercaseHex entry.sha256 = true
  blake3 : is64LowercaseHex entry.blake3 = true
  sizeBytes : entry.sizeBytes ≠ 0
  canonical : isCanonicalPeerId peerId = true
  found : (entry.sources.find? fun s => s.peerId == peerId) = some source

/-- The plan of an entry and its source. -/
def planOf (downloadId mediaId : String) (manifestVersion : ℤ) (entry : MediaEntry)
    (peerId : String) (source : Protocol.Source) : DownloadPlan where
  downloadId := downloadId
  mediaId := mediaId
  sha256 := entry.sha256
  blake3 := entry.blake3
  sizeBytes := entry.sizeBytes
  source := ⟨peerId, source⟩
  sourceMeta := ⟨source.chunkSize, source.totalChunks⟩
  chunks := (List.range source.totalChunks).map
    (plannedChunk entry.sizeBytes source.totalChunks source.chunkSize source.chunkHashes)
  manifestVersion := manifestVersion

lemma invalidHash_eq_none {i : ℕ} {hashes : List String} :
    invalidHash i hashes = none ↔ ∀ hash ∈ hashes, is64LowercaseHex hash = true := by
  induction hashes generalizing i with
  | nil => simp [invalidHash]
  | cons hash hashes ih =>
    rw [invalidHash, List.forall_mem_cons]
    split
    · rename_i h
      rw [ih]
      exact ⟨fun hall => ⟨h, hall⟩, fun hall => hall.2⟩
    · rename_i h
      exact ⟨fun heq => (by cases heq), fun hall => absurd hall.1 h⟩

/-- **What the planner accepts**, and the plan it makes. -/
theorem planDownload_eq_ok {downloadId mediaId : String} {manifestVersion : ℤ}
    {entry : MediaEntry} {peerId : String} {plan : DownloadPlan} :
    planDownload downloadId mediaId manifestVersion entry peerId = .ok plan ↔
      ∃ source, Plannable entry peerId source ∧
        plan = planOf downloadId mediaId manifestVersion entry peerId source := by
  unfold planDownload selectSource validateSourceShape
  constructor
  · intro h
    split at h
    · cases h
    rename_i hfilename
    split at h
    · cases h
    rename_i hsha
    split at h
    · cases h
    rename_i hblake
    split at h
    · cases h
    rename_i hsize
    by_cases hcanon : isCanonicalPeerId peerId = true
    swap
    · simp [hcanon] at h
    cases hfind : entry.sources.find? fun s => s.peerId == peerId with
    | none => simp [hcanon, hfind] at h
    | some source =>
      simp only [hcanon, hfind, Bool.not_true, Bool.false_eq_true, if_false] at h
      split at h
      · cases h
      rename_i shape hshape
      split at hshape
      · cases hshape
      rename_i hchunk
      split at hshape
      · cases hshape
      rename_i hcount
      obtain rfl := Except.ok.inj hshape
      dsimp only at h
      split at h
      · cases h
      rename_i htotal
      split at h
      · cases h
      rename_i hhash
      obtain rfl := Except.ok.inj h
      rw [not_not] at hchunk hcount htotal
      refine ⟨source, ⟨⟨hchunk, hcount, hchunk ▸ htotal, invalidHash_eq_none.1 hhash⟩, hfilename,
        ?_, ?_, hsize, hcanon, hfind⟩, rfl⟩
      · simpa using hsha
      · simpa using hblake
  · rintro ⟨source, h, rfl⟩
    have hhash : invalidHash 0 source.chunkHashes = none := invalidHash_eq_none.2 h.hashes
    simp [h.filename, h.sha256, h.blake3, h.sizeBytes, h.canonical, h.found, h.chunkSize, h.count,
      h.total, hhash, planOf]

/-! ### What every plan has -/

/-- The chunks stand in order, each where those before it end. -/
structure DownloadPlan.Layout (plan : DownloadPlan) : Prop where
  index : ∀ (i : ℕ) (chunk : PlannedChunk), plan.chunks[i]? = some chunk → chunk.index = i
  offset : ∀ (i : ℕ) (chunk : PlannedChunk), plan.chunks[i]? = some chunk →
    chunk.offset = ((plan.chunks.take i).map PlannedChunk.length).sum
  count : plan.chunks.length < 2 ^ 32

lemma sum_lengths {sizeBytes total chunkSize : ℕ} {hashes : List String} {i : ℕ} (hi : i < total) :
    (((List.range i).map (plannedChunk sizeBytes total chunkSize hashes)).map
      PlannedChunk.length).sum = i * chunkSize := by
  induction i with
  | zero => simp
  | succ i ih =>
    have hne : i + 1 ≠ total := by omega
    rw [List.range_succ, List.map_append, List.map_append, List.sum_append, ih (by omega)]
    simp [plannedChunk, hne, Nat.succ_mul]

lemma totalChunksFor_lt (size chunkSize : ℕ) : totalChunksFor size chunkSize < 2 ^ 32 := by
  unfold totalChunksFor asU32
  split
  · decide
  · exact Nat.mod_lt _ (by decide)

lemma chunks_of_planDownload {downloadId mediaId : String} {manifestVersion : ℤ}
    {entry : MediaEntry} {peerId : String} {plan : DownloadPlan}
    (h : planDownload downloadId mediaId manifestVersion entry peerId = .ok plan) :
    ∃ sizeBytes total chunkSize hashes, total < 2 ^ 32 ∧
      plan.chunks = (List.range total).map (plannedChunk sizeBytes total chunkSize hashes) := by
  obtain ⟨source, hsource, rfl⟩ := planDownload_eq_ok.1 h
  refine ⟨_, _, _, _, ?_, rfl⟩
  rw [hsource.total]
  exact totalChunksFor_lt _ _

/-- **Every accepted plan is laid out.** -/
theorem layout_of_planDownload {downloadId mediaId : String} {manifestVersion : ℤ}
    {entry : MediaEntry} {peerId : String} {plan : DownloadPlan}
    (h : planDownload downloadId mediaId manifestVersion entry peerId = .ok plan) :
    plan.Layout := by
  obtain ⟨sizeBytes, total, chunkSize, hashes, htotal, hchunks⟩ := chunks_of_planDownload h
  have hget : ∀ i chunk, plan.chunks[i]? = some chunk →
      i < total ∧ chunk = plannedChunk sizeBytes total chunkSize hashes i := by
    intro i chunk hi
    rw [hchunks, List.getElem?_map] at hi
    obtain ⟨j, hj, rfl⟩ := Option.map_eq_some_iff.1 hi
    obtain ⟨hlt, rfl⟩ := List.getElem?_eq_some_iff.1 hj
    rw [List.length_range] at hlt
    rw [List.getElem_range]
    exact ⟨hlt, rfl⟩
  refine ⟨fun i chunk hi => ?_, fun i chunk hi => ?_, ?_⟩
  · rw [(hget i chunk hi).2]
    rfl
  · obtain ⟨hlt, rfl⟩ := hget i chunk hi
    rw [hchunks, ← List.map_take, List.take_range, Nat.min_eq_left (by omega), sum_lengths hlt]
    rfl
  · rw [hchunks, List.length_map, List.length_range]
    exact htotal

/-- What the planner has checked of the fields of a plan. -/
structure DownloadPlan.WellFormed (plan : DownloadPlan) : Prop where
  peerId : isCanonicalPeerId plan.source.peerId = true
  sha256 : is64LowercaseHex plan.sha256 = true
  blake3 : is64LowercaseHex plan.blake3 = true
  total : plan.sourceMeta.totalChunks = plan.chunks.length
  length : ∀ chunk ∈ plan.chunks, chunk.length ≤ chunkSizeBytes
  hash : ∀ chunk ∈ plan.chunks, is64LowercaseHex chunk.sha256 = true

/-- No chunk is longer than a full one; also when the number of chunks wraps around. -/
lemma plannedChunk_length_le {sizeBytes index : ℕ} {hashes : List String}
    (hlt : index < totalChunksFor sizeBytes chunkSizeBytes) :
    (plannedChunk sizeBytes (totalChunksFor sizeBytes chunkSizeBytes) chunkSizeBytes hashes
      index).length ≤ chunkSizeBytes := by
  unfold plannedChunk totalChunksFor asU32 chunkSizeBytes at *
  dsimp only
  split_ifs at * <;> omega

theorem wellFormed_of_planDownload {downloadId mediaId : String} {manifestVersion : ℤ}
    {entry : MediaEntry} {peerId : String} {plan : DownloadPlan}
    (h : planDownload downloadId mediaId manifestVersion entry peerId = .ok plan) :
    plan.WellFormed := by
  obtain ⟨source, hsource, rfl⟩ := planDownload_eq_ok.1 h
  refine ⟨hsource.canonical, hsource.sha256, hsource.blake3, ?_, fun chunk hchunk => ?_,
    fun chunk hchunk => ?_⟩
  · simp [planOf]
  · obtain ⟨i, hi, rfl⟩ := List.mem_map.1 hchunk
    rw [List.mem_range, hsource.total] at hi
    rw [hsource.total, hsource.chunkSize]
    exact plannedChunk_length_le hi
  · obtain ⟨i, hi, rfl⟩ := List.mem_map.1 hchunk
    rw [List.mem_range, ← hsource.count] at hi
    have hget : source.chunkHashes.getD i "" = source.chunkHashes[i] := by simp [hi]
    have hhash := hsource.hashes _ (List.getElem_mem hi)
    rw [← hget] at hhash
    exact hhash

/-! ### Plans of one file -/

/-- The length of the last chunk says the size, up to what a `u32` of chunks can tell apart. -/
lemma lastLength_eq_iff {size size' i : ℕ} (h : i + 1 = totalChunksFor size chunkSizeBytes)
    (h' : i + 1 = totalChunksFor size' chunkSizeBytes) :
    asU32 (size - i * chunkSizeBytes) = asU32 (size' - i * chunkSizeBytes) ↔
      size % 2 ^ 50 = size' % 2 ^ 50 := by
  unfold totalChunksFor asU32 chunkSizeBytes at *
  split_ifs at h h'
  constructor <;> intro heq <;> omega

/-- **Two plans list the same chunks** when their sources list the same hashes and the files are as
long. -/
theorem chunks_eq_iff {d d' m m' : String} {v v' : ℤ} {entry entry' : MediaEntry}
    {peerId peerId' : String} {source source' : Protocol.Source} (h : Describes entry source)
    (h' : Describes entry' source') :
    (planOf d m v entry peerId source).chunks = (planOf d' m' v' entry' peerId' source').chunks ↔
      source.chunkHashes = source'.chunkHashes ∧
        (source.chunkHashes ≠ [] → entry.sizeBytes % 2 ^ 50 = entry'.sizeBytes % 2 ^ 50) := by
  have hcount := h.count
  have hcount' := h'.count
  have htotal := h.total
  have htotal' := h'.total
  unfold planOf
  dsimp only
  rw [h.chunkSize, h'.chunkSize]
  constructor
  · intro heq
    have hn : source.totalChunks = source'.totalChunks := by
      simpa using congrArg List.length heq
    have hchunk : ∀ i < source.totalChunks,
        plannedChunk entry.sizeBytes source.totalChunks chunkSizeBytes source.chunkHashes i =
          plannedChunk entry'.sizeBytes source'.totalChunks chunkSizeBytes
            source'.chunkHashes i := by
      intro i hi
      have hget := congrArg (·[i]?) heq
      simpa [hi, hn ▸ hi] using hget
    refine ⟨List.ext_getElem (by omega) fun i hi hi' => ?_, fun hne => ?_⟩
    · have hsha := congrArg PlannedChunk.sha256 (hchunk i (by omega))
      simpa [plannedChunk, hi, hi'] using hsha
    · obtain ⟨i, hi⟩ : ∃ i, i + 1 = source.totalChunks := by
        have hpos := List.length_pos_iff.2 hne
        exact ⟨source.totalChunks - 1, by omega⟩
      have hlen := congrArg PlannedChunk.length (hchunk i (by omega))
      simp only [plannedChunk, hi, ← hn, if_true] at hlen
      exact (lastLength_eq_iff (hi.trans htotal) ((hi.trans hn).trans htotal')).1 hlen
  · rintro ⟨hhashes, hsize⟩
    have hn : source.totalChunks = source'.totalChunks := by rw [← hcount, ← hcount', hhashes]
    rw [← hn, ← hhashes]
    refine List.map_congr_left fun i hi => ?_
    rw [List.mem_range] at hi
    unfold plannedChunk
    by_cases hlast : i + 1 = source.totalChunks
    · have hne : source.chunkHashes ≠ [] := by
        rw [← List.length_pos_iff]
        omega
      simp only [hlast, if_true]
      rw [(lastLength_eq_iff (hlast.trans htotal) ((hlast.trans hn).trans htotal')).2 (hsize hne)]
    · simp only [hlast, if_false]

end Locast.Transfer
