import Locast.Protocol.Assembling

/-!
# A manifest that was split

`SplitManifest` is a serialized manifest with the parameters of a split that succeeds.  Its pieces
pass every check of a receiver, and an assembler that has taken some of them holds the bytes up to
there.
-/

namespace Locast.Protocol

open Locast.Lib

/-! ### Chunks -/

lemma lt_divCeil {n d i : ℕ} (hd : 0 < d) : i < divCeil n d ↔ i * d < n := by
  rw [divCeil, Nat.lt_div_iff_mul_lt hd]
  omega

lemma le_divCeil_mul {n d : ℕ} (hd : 0 < d) : n ≤ divCeil n d * d := by
  have h := (lt_divCeil (n := n) (i := divCeil n d) hd).not
  omega

/-- The bytes up to a chunk, with the chunk, are the bytes up to the next one. -/
lemma take_append_chunk (bytes : List UInt8) (size i : ℕ) :
    bytes.take (i * size) ++ chunk bytes size i = bytes.take ((i + 1) * size) := by
  rw [chunk, Nat.succ_mul, List.take_add]

/-- **A chunk is a slice** of the bytes up to a later one. -/
lemma slice_take {bytes : List UInt8} {size i k : ℕ} (hik : i < k) :
    ((bytes.take (k * size)).take (min ((i + 1) * size) bytes.length)).drop (i * size) =
      chunk bytes size i := by
  have hle : (i + 1) * size ≤ k * size := Nat.mul_le_mul_right size hik
  have htake : (bytes.take (k * size)).take (min ((i + 1) * size) bytes.length) =
      bytes.take ((i + 1) * size) := by
    rw [List.take_take, List.take_eq_take_iff]
    omega
  rw [htake, Nat.succ_mul, List.drop_take, Nat.add_sub_cancel_left, chunk]

/-! ### Splits -/

/-- What the digest promises. -/
structure PartCrates.Lawful (crates : PartCrates) : Prop where
  fromSlice_toVec : ∀ manifest bytes, crates.toVec manifest = .ok bytes →
    crates.fromSlice bytes = .ok manifest
  isDigest_sha256Hex : ∀ bytes, isDigest (crates.sha256Hex bytes) = true

/-- **A split that succeeds.** -/
structure SplitManifest where
  roomId : Uuid
  assemblyId : Uuid
  kind : ManifestPartKind
  version : ℤ
  publishedAtMs : ℤ
  partSize : ℕ
  bytes : List UInt8
  bytes_ne_nil : bytes ≠ []
  bytes_le : bytes.length ≤ maxAssembledBytes
  partSize_pos : 0 < partSize
  partSize_le : partSize ≤ maxPartBytes
  total_le : divCeil bytes.length partSize ≤ maxParts
  publish : kind = .publish → version = 0 ∧ publishedAtMs = 0

/-- **A piece size chosen for a frame cap** fits every encoded manifest. -/
theorem split_of_frameCap {crates : PartCrates} {frameCap size : ℕ} {manifest : MediaManifest}
    {bytes : List UInt8} (hsize : partSizeForFrameCap frameCap = .ok size)
    (hencode : encodeManifest crates manifest = .ok bytes) (hbytes : bytes ≠ [])
    (kind : ManifestPartKind) (version publishedAtMs : ℤ) (assemblyId : Uuid) :
    ∃ pieces, splitManifestBytes crates bytes kind version publishedAtMs assemblyId size =
      .ok pieces := by
  have hlength : bytes.length ≤ maxAssembledBytes := by
    unfold encodeManifest at hencode
    split at hencode
    · cases hencode
    · split at hencode
      · cases hencode
      · rename_i hle
        cases hencode
        exact Nat.le_of_not_lt hle
  have hsmall : divCeil maxAssembledBytes maxParts = 32768 := by decide
  unfold partSizeForFrameCap at hsize
  dsimp only at hsize
  split at hsize
  · cases hsize
  rename_i hlarge
  cases hsize
  have hle : min ((frameCap - frameOverheadBytes) / 4 * 3) maxPartBytes ≤ maxPartBytes :=
    Nat.min_le_right _ _
  generalize min ((frameCap - frameOverheadBytes) / 4 * 3) maxPartBytes = size at hlarge hle
  have hpos : 0 < size := by omega
  have hparts : divCeil bytes.length size ≤ maxParts := by
    refine Nat.le_of_not_lt fun hlt => ?_
    have hmul := (lt_divCeil hpos).1 hlt
    have hfit := Nat.mul_le_mul_left maxParts (show 32768 ≤ size by omega)
    have hcap : maxParts * 32768 = maxAssembledBytes := rfl
    omega
  have hparams : ¬(bytes = [] ∨ size = 0 ∨ maxPartBytes < size) := by
    rintro (hnil | hzero | hlt)
    · exact hbytes hnil
    · omega
    · omega
  rw [splitManifestBytes, if_neg hparams, if_neg (by omega), if_neg (by omega)]
  exact ⟨_, rfl⟩

namespace SplitManifest

variable (crates : PartCrates) (m : SplitManifest)

def total : ℕ := divCeil m.bytes.length m.partSize

/-- Its `i`-th piece. -/
def piece (i : ℕ) : ManifestPartPayload :=
  pieceOf crates m.bytes m.kind m.version m.publishedAtMs m.assemblyId m.partSize i

def key : Uuid × Uuid := (m.roomId, m.assemblyId)

def slot : Uuid × ManifestPartKind := (m.roomId, m.kind)

/-- What an assembler holds of it once `k` pieces are taken, the last of them at `now`. -/
def entry (k now : ℕ) : Entry where
  roomId := m.roomId
  assemblyId := m.assemblyId
  kind := m.kind
  total := m.total
  totalBytes := m.bytes.length
  digest := crates.sha256Hex m.bytes
  version := m.version
  publishedAtMs := m.publishedAtMs
  ends := (List.range k).map fun i => min ((i + 1) * m.partSize) m.bytes.length
  buf := m.bytes.take (k * m.partSize)
  lastActivity := now

variable {crates} {m} {i k now : ℕ}

lemma lt_total : i < m.total ↔ i * m.partSize < m.bytes.length := lt_divCeil m.partSize_pos

lemma length_le_total : m.bytes.length ≤ m.total * m.partSize := le_divCeil_mul m.partSize_pos

lemma length_pos : 0 < m.bytes.length := List.length_pos_of_ne_nil m.bytes_ne_nil

lemma total_pos : 0 < m.total := lt_total.2 (by simpa using length_pos)

lemma chunk_length_le : (chunk m.bytes m.partSize i).length ≤ m.partSize := List.length_take_le _ _

lemma chunk_ne_nil (hi : i < m.total) : chunk m.bytes m.partSize i ≠ [] := by
  have hlt := lt_total.1 hi
  have hpos := m.partSize_pos
  rw [← List.length_pos_iff, chunk, List.length_take, List.length_drop]
  omega

/-! ### Its pieces -/

/-- **A piece has a valid header.** -/
lemma validateHeader_piece (hc : crates.Lawful) (hi : i < m.total) :
    validateHeader (m.piece crates i) = .ok () := by
  have hpos := m.total_pos
  have hlength := m.length_pos
  have htotal : m.total ≤ m.bytes.length := by
    have hlast := lt_total.1 (Nat.sub_lt hpos Nat.zero_lt_one)
    have hmul := Nat.le_mul_of_pos_right (m.total - 1) m.partSize_pos
    omega
  have hcover := m.length_le_total
  have hfit := Nat.mul_le_mul_left m.total m.partSize_le
  have hparts : m.total ≤ maxParts := m.total_le
  have hbytes := m.bytes_le
  unfold validateHeader piece pieceOf
  dsimp only
  change (if m.total = 0 ∨ maxParts < m.total then _ else if m.total ≤ i then _ else _) = _
  rw [if_neg (by omega), if_neg (by omega), if_neg (by omega), if_neg (by
    change ¬(m.total * maxPartBytes < m.bytes.length ∨ m.bytes.length < m.total)
    omega), hc.isDigest_sha256Hex]
  rw [if_neg (by simp), if_neg (by
    rintro ⟨hkind, hne⟩
    obtain ⟨hversion, hpublished⟩ := m.publish hkind
    simp [hversion, hpublished] at hne)]

lemma fromBase64_piece (hi : i < m.total) :
    fromBase64 (m.piece crates i).data = some (chunk m.bytes m.partSize i) := by
  change fromBase64 (Base64.encode _) = _
  rw [fromBase64, if_neg (Base64.encode_ne_empty (chunk_ne_nil hi)), Base64.decode_encode]

/-- **A receiver looks up the assembly of a piece.** -/
lemma offer_piece (hc : crates.Lawful) (hi : i < m.total) (a : PartAssembler) (now : ℕ) :
    a.offer crates m.roomId (m.piece crates i) now =
      match (a.expire now).position m.roomId m.assemblyId with
      | some pos => ((a.expire now).finish crates pos (m.piece crates i)
          (chunk m.bytes m.partSize i) now).map fun out => .done out.1 out.2
      | none =>
        if i ≠ 0 then some (.done (a.expire now) (.error (.outOfOrder 0 i)))
        else some
          (.reserve ((a.expire now).makeRoom m.roomId m.kind) (chunk m.bytes m.partSize i)) := by
  have hlength := chunk_length_le (m := m) (i := i)
  have hsize := m.partSize_le
  have hdata : (m.piece crates i).data.utf8ByteSize =
      ((chunk m.bytes m.partSize i).length + 2) / 3 * 4 := Base64.encode_size _
  unfold PartAssembler.offer
  rw [validateHeader_piece hc hi, fromBase64_piece hi]
  dsimp only
  rw [if_neg (by
    rw [hdata, divCeil]
    have := Nat.div_le_div_right (c := 3) (show (chunk m.bytes m.partSize i).length + 2 ≤
      maxPartBytes + 3 - 1 by omega)
    omega), if_neg (by omega)]
  rfl

/-! ### What is taken -/

/-- Before its first piece. -/
lemma new_eq_entry : Entry.new m.roomId (m.piece crates i) now = m.entry crates 0 now := by
  simp only [Entry.new, entry, piece, pieceOf, total, Nat.zero_mul, List.take_zero, List.range_zero,
    List.map_nil]

/-- Up to the next piece. -/
lemma extended_entry (last : ℕ) :
    (m.entry crates k last).extended (chunk m.bytes m.partSize k) now =
      m.entry crates (k + 1) now := by
  simp only [Entry.extended, entry, take_append_chunk, List.range_succ, List.map_append,
    List.map_singleton, List.length_take]

lemma entry_header : (m.entry crates k now).header = (m.piece crates i).header := rfl

lemma index_lt_entry (hik : i < k) (now : ℕ) :
    (m.piece crates i).index < (m.entry crates k now).ends.length := by
  simpa [entry, piece, pieceOf] using hik

/-- **What is held of a piece that was taken.** -/
lemma slice_entry (hik : i < k) (hi : i < m.total) (now : ℕ) :
    (m.entry crates k now).slice i = some (chunk m.bytes m.partSize i) := by
  have hend : (m.entry crates k now).ends[i]? =
      some (min ((i + 1) * m.partSize) m.bytes.length) := by
    simp [entry, hik]
  have hstart : (if i = 0 then some 0 else (m.entry crates k now).ends[i - 1]?) =
      some (i * m.partSize) := by
    split
    · rename_i hzero
      rw [hzero, Nat.zero_mul]
    · rename_i hpos
      have hlt := lt_total.1 hi
      have hprev : i - 1 + 1 = i := Nat.sub_add_cancel (Nat.pos_of_ne_zero hpos)
      have hk : i - 1 < k := by omega
      simp only [entry, List.getElem?_map, List.getElem?_range hk, Option.map_some, hprev]
      rw [Nat.min_eq_left (Nat.le_of_lt hlt)]
  have hle : i * m.partSize ≤ (i + 1) * m.partSize := Nat.mul_le_mul_right _ (Nat.le_succ i)
  have hk : (i + 1) * m.partSize ≤ k * m.partSize := Nat.mul_le_mul_right _ hik
  have hlt := lt_total.1 hi
  rw [Entry.slice, hstart, hend]
  dsimp only
  rw [if_pos ⟨by omega, by simp only [entry, List.length_take]; omega⟩]
  exact congrArg some (slice_take hik)

/-- **A repeat is ignored.** -/
lemma take_again (hik : i < k) (hi : i < m.total) (last now : ℕ) :
    (m.entry crates k last).take crates (m.piece crates i) (chunk m.bytes m.partSize i) now =
      some (m.entry crates k last, .ok none) :=
  Entry.take_repeated now entry_header (index_lt_entry hik last) (slice_entry hik hi last)

/-- **The next piece is taken**, and the last one completes the manifest. -/
lemma take_next {manifest : MediaManifest} (hparse : crates.fromSlice m.bytes = .ok manifest)
    (hk : k < m.total) (last now : ℕ) :
    (m.entry crates k last).take crates (m.piece crates k) (chunk m.bytes m.partSize k) now =
      some (m.entry crates (k + 1) now, .ok (if k + 1 < m.total then none else
        some ⟨m.roomId, m.kind, m.version, m.publishedAtMs, manifest⟩)) := by
  have hindex : (m.piece crates k).index = (m.entry crates k last).ends.length := by
    simp [entry, piece, pieceOf]
  have hbuf : (m.entry crates k last).buf ++ chunk m.bytes m.partSize k =
      m.bytes.take ((k + 1) * m.partSize) := take_append_chunk _ _ _
  rw [← extended_entry last]
  split
  · rename_i hmore
    refine Entry.take_more now entry_header hindex ?_ hmore
    rw [← List.length_append, hbuf, List.length_take]
    change ¬m.bytes.length < _
    omega
  · rename_i hlast
    have hall : m.bytes.take ((k + 1) * m.partSize) = m.bytes := by
      have htotal : k + 1 = m.total := by omega
      rw [htotal]
      exact List.take_of_length_le length_le_total
    rw [hall] at hbuf
    refine Entry.take_last now entry_header hindex hlast ?_ ?_ ?_
    · rw [hbuf]
      rfl
    · rw [hbuf]
      rfl
    · rw [hbuf, hparse]

end SplitManifest

/-! ### The small manifest in pieces -/

lemma isDigest_ofList {l : List Char} (hsize : (String.ofList l).utf8ByteSize = 64)
    (h : (l.all fun c => ('0' ≤ c && c ≤ '9') || ('a' ≤ c && c ≤ 'f')) = true) :
    isDigest (String.ofList l) = true := by
  rw [isDigest, String.toList_ofList, h, hsize]
  rfl

namespace SmallManifest

lemma json_length : json.length = 98 := by
  have hhead :
      "\x7b\"manifest_version\":1,\"room_id\":\"\",\"media\":[],\"subtitles\":[],".toList.length =
      61 := by
    rw [String.toList_ofList]
    rfl
  have htail : "\"created_at\":0,\"host_signature\":null\x7d".toList.length = 37 := by
    rw [String.toList_ofList]
    rfl
  delta json
  rw [List.length_map, String.toList_append, List.length_append, hhead, htail]

lemma lawful : serde.Lawful where
  fromSlice_toVec m bytes h := by
    simp only [serde] at h ⊢
    split at h
    · rename_i hm
      rw [if_pos (Except.ok.inj h).symm, hm]
    · cases h
  isDigest_sha256Hex _ := isDigest_ofList (by decide) (by decide)

-- The bytes are only ever compared with themselves.
attribute [local irreducible] json

/-- Its split into two pieces. -/
def cut : SplitManifest where
  roomId := 1
  assemblyId := 1
  kind := .published
  version := 3
  publishedAtMs := 99
  partSize := 50
  bytes := json
  bytes_ne_nil := List.ne_nil_of_length_pos (json_length ▸ Nat.succ_pos _)
  bytes_le := json_length ▸ by decide
  partSize_pos := by decide
  partSize_le := by decide
  total_le := json_length ▸ by decide
  publish h := nomatch h

lemma cut_total : cut.total = 2 := by
  rw [SplitManifest.total]
  change divCeil json.length 50 = 2
  rw [json_length]
  rfl

lemma fromSlice_json : serde.fromSlice cut.bytes = .ok manifest := if_pos rfl

/-- An assembler that has taken the first piece. -/
def begun : PartAssembler := { PartAssembler.new 2 30 with entries := [cut.entry serde 1 0] }

/-- The first piece asks for a reservation. -/
lemma offer_first : (PartAssembler.new 2 30).offer serde 1 (piece 0) 0 =
    some (.reserve (PartAssembler.new 2 30) (chunk json 50 0)) :=
  SplitManifest.offer_piece lawful (m := cut) (cut_total ▸ Nat.two_pos) (PartAssembler.new 2 30) 0

/-- With its reservation it is taken. -/
lemma accept_first : (PartAssembler.new 2 30).accept serde 1 (piece 0) (chunk json 50 0) 0 =
    some (begun, .ok none) := by
  have htake : (Entry.new 1 (piece 0) 0).take serde (piece 0) (chunk json 50 0) 0 =
      some (cut.entry serde 1 0, .ok none) := by
    have hnext := SplitManifest.take_next (m := cut) fromSlice_json (cut_total ▸ Nat.two_pos) 0 0
    rw [if_pos (cut_total ▸ Nat.one_lt_two)] at hnext
    exact (congrArg (Entry.take serde · _ _ _) SplitManifest.new_eq_entry).trans hnext
  rw [PartAssembler.accept, PartAssembler.finish]
  change ((Entry.new 1 (piece 0) 0).take serde (piece 0) (chunk json 50 0) 0).map _ = _
  rw [htake]
  rfl

lemma push_first : (PartAssembler.new 2 30).push serde (.ok ()) 1 (piece 0) 0 =
    some (begun, .ok none) := by
  rw [PartAssembler.push, offer_first]
  exact accept_first

/-- The second piece completes the manifest. -/
lemma offer_second : begun.offer serde 1 (piece 1) 0 =
    some (.done { PartAssembler.new 2 30 with dropped := [98] }
      (.ok (some ⟨1, .published, 3, 99, manifest⟩))) := by
  have hoffer := SplitManifest.offer_piece lawful (m := cut) (cut_total ▸ Nat.one_lt_two) begun 0
  have htake := SplitManifest.take_next (m := cut) fromSlice_json (cut_total ▸ Nat.one_lt_two) 0 0
  rw [if_neg (cut_total ▸ Nat.lt_irrefl 2)] at htake
  refine hoffer.trans ?_
  change ((begun.finish serde 0 (cut.piece serde 1) (chunk json 50 1) 0).map _) = _
  rw [PartAssembler.finish]
  change
    ((((cut.entry serde 1 0).take serde (cut.piece serde 1) (chunk json 50 1) 0).map _).map _) = _
  rw [show (cut.entry serde 1 0).take serde (cut.piece serde 1) (chunk json 50 1) 0 = _ from htake]
  have hbytes : (cut.entry serde 2 0).totalBytes = 98 := json_length
  simp [PartAssembler.swapRemove, hbytes, PartAssembler.new, begun, Lib.swapRemove]
  exact ⟨rfl, rfl, rfl, rfl⟩

end SmallManifest

end Locast.Protocol
