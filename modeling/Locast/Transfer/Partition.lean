import Locast.Transfer.Plan
import Mathlib.Algebra.Order.BigOperators.Group.List
import Mathlib.Algebra.Order.Ring.Nat

/-!
# The chunks of a plan and the file

A plan is meant to cut the file into full chunks and a last one, with nothing left over.  The number
of chunks is computed as a `u32` and compared with the declared one, so a file of `2 ^ 32` chunks or
more passes with what is left of the count; every smaller file is cut exactly.
-/

namespace Locast.Transfer

open Protocol (MediaEntry)

/-- **An exact partition of the file**: chunks without gap or overlap, all full but the last, none
empty, as long together as the file, and with the declared hashes. -/
structure DownloadPlan.Partition (plan : DownloadPlan) (sizeBytes : ℕ) (hashes : List String) :
    Prop where
  index : ∀ (i : ℕ) (chunk : PlannedChunk), plan.chunks[i]? = some chunk → chunk.index = i
  first : ∀ chunk : PlannedChunk, plan.chunks[0]? = some chunk → chunk.offset = 0
  next : ∀ (i : ℕ) (chunk chunk' : PlannedChunk), plan.chunks[i]? = some chunk →
    plan.chunks[i + 1]? = some chunk' → chunk'.offset = chunk.offset + chunk.length
  length : ∀ chunk ∈ plan.chunks, 1 ≤ chunk.length ∧ chunk.length ≤ chunkSizeBytes
  full : ∀ (i : ℕ) (chunk : PlannedChunk), plan.chunks[i]? = some chunk →
    i + 1 < plan.chunks.length → chunk.length = chunkSizeBytes
  sum : (plan.chunks.map PlannedChunk.length).sum = sizeBytes
  sha256 : plan.chunks.map PlannedChunk.sha256 = hashes

/-! ### The number of chunks -/

variable {sizeBytes : ℕ} {hashes : List String}

lemma chunkSizeBytes_eq : chunkSizeBytes = 262144 := rfl

/-- Up to `2 ^ 32 - 1` full chunks the count is the true one: the last chunk holds what remains. -/
lemma totalChunksFor_of_le (hsize : sizeBytes ≤ (2 ^ 32 - 1) * chunkSizeBytes) :
    sizeBytes ≤ totalChunksFor sizeBytes chunkSizeBytes * chunkSizeBytes ∧
      totalChunksFor sizeBytes chunkSizeBytes * chunkSizeBytes < sizeBytes + chunkSizeBytes := by
  rw [chunkSizeBytes_eq] at hsize ⊢
  unfold totalChunksFor asU32
  split_ifs with hzero <;> omega

lemma plannedChunk_getElem? {total i : ℕ} {chunk : PlannedChunk}
    (h : ((List.range total).map (plannedChunk sizeBytes total chunkSizeBytes hashes))[i]? =
      some chunk) : i < total ∧ chunk = plannedChunk sizeBytes total chunkSizeBytes hashes i := by
  rw [List.getElem?_map] at h
  obtain ⟨j, hj, rfl⟩ := Option.map_eq_some_iff.1 h
  obtain ⟨hlt, rfl⟩ := List.getElem?_eq_some_iff.1 hj
  rw [List.length_range] at hlt
  rw [List.getElem_range]
  exact ⟨hlt, rfl⟩

/-- A chunk that is not the last one is full. -/
lemma plannedChunk_length_of_lt {total i : ℕ} (hlt : i + 1 < total) :
    (plannedChunk sizeBytes total chunkSizeBytes hashes i).length = chunkSizeBytes :=
  if_neg (by omega)

variable (hashes) in
/-- The last chunk holds what the full ones leave of the file. -/
lemma plannedChunk_length_last {total i : ℕ} (hlast : i + 1 = total)
    (hlow : i * chunkSizeBytes < sizeBytes) (hhigh : sizeBytes ≤ total * chunkSizeBytes) :
    (plannedChunk sizeBytes total chunkSizeBytes hashes i).length =
      sizeBytes - i * chunkSizeBytes := by
  have hfit : sizeBytes - i * chunkSizeBytes < 2 ^ 32 := by
    subst hlast
    rw [chunkSizeBytes_eq] at hlow hhigh ⊢
    omega
  unfold plannedChunk
  dsimp only
  rw [if_pos hlast, asU32, Nat.mod_eq_of_lt hfit]

/-! ### Exactly when -/

section

variable {downloadId mediaId : String} {manifestVersion : ℤ} {entry : MediaEntry} {peerId : String}
  {source : Protocol.Source}

/-- A file whose chunks can be counted is cut exactly. -/
lemma partition_of_le (h : Plannable entry peerId source)
    (hsize : entry.sizeBytes ≤ (2 ^ 32 - 1) * chunkSizeBytes) :
    (planOf downloadId mediaId manifestVersion entry peerId source).Partition entry.sizeBytes
      source.chunkHashes := by
  obtain ⟨hhigh, hlow⟩ := totalChunksFor_of_le hsize
  rw [← h.total] at hhigh hlow
  have hpos := Nat.pos_of_ne_zero h.sizeBytes
  obtain ⟨n, hn⟩ : ∃ n, n + 1 = source.totalChunks := by
    refine Nat.exists_eq_succ_of_ne_zero (fun hzero => ?_) |>.imp fun n hn => hn.symm
    rw [hzero] at hhigh
    omega
  have hrest : n * chunkSizeBytes < entry.sizeBytes := by
    rw [← hn, Nat.succ_mul] at hlow
    omega
  have hlast := plannedChunk_length_last source.chunkHashes hn hrest hhigh
  have hget : ∀ i chunk,
      (planOf downloadId mediaId manifestVersion entry peerId source).chunks[i]? = some chunk →
      i < source.totalChunks ∧ chunk =
        plannedChunk entry.sizeBytes source.totalChunks chunkSizeBytes source.chunkHashes i :=
    fun i chunk hi => plannedChunk_getElem? (by simpa only [planOf, h.chunkSize] using hi)
  have hlength :
      (planOf downloadId mediaId manifestVersion entry peerId source).chunks.length =
        source.totalChunks := by
    simp [planOf]
  refine ⟨fun i chunk hi => ?_, fun chunk hi => ?_, fun i chunk chunk' hi hi' => ?_,
    fun chunk hmem => ?_, fun i chunk hi hlt => ?_, ?_, ?_⟩
  · rw [(hget i chunk hi).2]
    rfl
  · rw [(hget 0 chunk hi).2]
    exact Nat.zero_mul _
  · obtain ⟨-, rfl⟩ := hget i chunk hi
    obtain ⟨hlt, rfl⟩ := hget (i + 1) chunk' hi'
    rw [plannedChunk_length_of_lt hlt]
    exact Nat.succ_mul i chunkSizeBytes
  · obtain ⟨i, hi⟩ := List.getElem?_of_mem hmem
    obtain ⟨hlt, rfl⟩ := hget i chunk hi
    by_cases hi : i = n
    · subst hi
      rw [hlast]
      rw [← hn, Nat.succ_mul] at hhigh
      omega
    · rw [plannedChunk_length_of_lt (by omega)]
      exact ⟨by decide, le_rfl⟩
  · rw [hlength] at hlt
    rw [(hget i chunk hi).2, plannedChunk_length_of_lt hlt]
  · unfold planOf
    dsimp only
    rw [← hn] at hlast ⊢
    rw [h.chunkSize, List.range_succ, List.map_append, List.map_append, List.sum_append,
      sum_lengths (Nat.lt_succ_self n), List.map_singleton, List.map_singleton, List.sum_singleton,
      hlast]
    omega
  · unfold planOf
    dsimp only
    refine List.ext_getElem (by simp [h.count]) fun i hi hi' => ?_
    simp [plannedChunk, hi']

/-- Chunks that a `u32` counts are not longer together than so many full ones. -/
lemma DownloadPlan.Partition.le {plan : DownloadPlan} (h : plan.Partition sizeBytes hashes)
    (hcount : plan.chunks.length < 2 ^ 32) : sizeBytes ≤ (2 ^ 32 - 1) * chunkSizeBytes := by
  have hle : ∀ n ∈ plan.chunks.map PlannedChunk.length, n ≤ chunkSizeBytes := by
    intro n hn
    obtain ⟨chunk, hchunk, rfl⟩ := List.mem_map.1 hn
    exact (h.length chunk hchunk).2
  calc sizeBytes = (plan.chunks.map PlannedChunk.length).sum := h.sum.symm
    _ ≤ (plan.chunks.map PlannedChunk.length).length • chunkSizeBytes :=
      List.sum_le_card_nsmul _ _ hle
    _ = plan.chunks.length * chunkSizeBytes := by rw [List.length_map, Nat.nsmul_eq_mul]
    _ ≤ (2 ^ 32 - 1) * chunkSizeBytes := Nat.mul_le_mul_right _ (by omega)

/-- **An accepted plan cuts the file exactly when it has less than `2 ^ 32` chunks**: the chosen
source is that of the peer, and the chunks carry its hashes. -/
theorem plan_partition_iff {plan : DownloadPlan}
    (h : planDownload downloadId mediaId manifestVersion entry peerId = .ok plan) :
    (plan.sizeBytes = entry.sizeBytes ∧
      (entry.sources.find? fun s => s.peerId == peerId) = some plan.source.source ∧
      plan.Partition entry.sizeBytes plan.source.source.chunkHashes) ↔
    entry.sizeBytes ≤ (2 ^ 32 - 1) * chunkSizeBytes := by
  have hcount := (layout_of_planDownload h).count
  obtain ⟨source, hsource, rfl⟩ := planDownload_eq_ok.1 h
  exact ⟨fun hall => hall.2.2.le hcount,
    fun hsize => ⟨rfl, hsource.found, partition_of_le hsource hsize⟩⟩

end

/-! ### A file of more chunks -/

namespace Wrapped

def hostId : String := "3a7bd3e2360a3d29eea436fcfb7e44c735d117c42d1c1835420b6b9942dd4f1b"
def digest : String := "60303ae22b998861bce3b28f33eec1be758a213c86c93c076dbe9f558c11c752"

/-- An entry of a size, with the hashes of its chunks. -/
def entry (hashes : List String) (sizeBytes : ℕ) : MediaEntry where
  id := "11111111-1111-4111-8111-111111111111"
  filename := "film.mkv"
  sha256 := digest
  blake3 := digest
  sizeBytes := sizeBytes
  mime := "video/x-matroska"
  durationMs := 60000
  dimensions := none
  codecs := none
  sources := [⟨hostId, none, 0, chunkSizeBytes, hashes.length, hashes⟩]

/-- The plan of such an entry. -/
def plan (hashes : List String) (sizeBytes : ℕ) : DownloadPlan :=
  planOf "d" "m" 1 (entry hashes sizeBytes) hostId
    ⟨hostId, none, 0, chunkSizeBytes, hashes.length, hashes⟩

lemma hostId_hex : is64LowercaseHex hostId = true := is64LowercaseHex_ofList (by decide) (by decide)

lemma digest_hex : is64LowercaseHex digest = true := is64LowercaseHex_ofList (by decide) (by decide)

/-- A size that has as many chunks as there are hashes, modulo the wrapping of the count, is
planned. -/
lemma planned {hashes : List String} {sizeBytes : ℕ} (hsize : sizeBytes ≠ 0)
    (htotal : hashes.length = totalChunksFor sizeBytes chunkSizeBytes)
    (hhex : ∀ hash ∈ hashes, hash = digest ∨ hash = hostId) :
    planDownload "d" "m" 1 (entry hashes sizeBytes) hostId = .ok (plan hashes sizeBytes) := by
  refine planDownload_eq_ok.2
    ⟨_, ⟨⟨rfl, rfl, htotal, fun hash hhash => ?_⟩, by simp [entry], digest_hex, digest_hex, hsize,
      hostId_hex, ?_⟩, rfl⟩
  · obtain rfl | rfl := hhex hash hhash
    · exact digest_hex
    · exact hostId_hex
  · rw [entry, List.find?_cons_of_pos]
    exact beq_self_eq_true _

/-- **A petabyte in one byte**: a file of `2 ^ 32 + 1` chunks, the last of one byte, that is
declared as one chunk is accepted, and the plan is one chunk of one byte. -/
theorem not_plan_partition :
    planDownload "d" "m" 1 (entry [digest] (2 ^ 50 + 1)) hostId = .ok (plan [digest] (2 ^ 50 + 1)) ∧
      (plan [digest] (2 ^ 50 + 1)).chunks = [⟨0, 0, 1, digest⟩] ∧
      ¬(plan [digest] (2 ^ 50 + 1)).Partition (2 ^ 50 + 1) [digest] := by
  have hchunks : (plan [digest] (2 ^ 50 + 1)).chunks = [⟨0, 0, 1, digest⟩] := rfl
  refine ⟨planned (by decide) (by decide) (by simp), hchunks, fun h => ?_⟩
  have hsum := h.sum
  rw [hchunks] at hsum
  exact absurd hsum (by decide)

/-- Two chunks and a half. -/
theorem plan_partition_three :
    let made := plan [digest, hostId, digest] (2 * chunkSizeBytes + 131072)
    made.sizeBytes = 2 * chunkSizeBytes + 131072 ∧
      ((entry [digest, hostId, digest] (2 * chunkSizeBytes + 131072)).sources.find? fun s =>
        s.peerId == hostId) = some made.source.source ∧
      made.Partition (2 * chunkSizeBytes + 131072) [digest, hostId, digest] := by
  exact (plan_partition_iff (planned (by decide) (by decide) (by simp))).2 (by decide)

end Wrapped

end Locast.Transfer
