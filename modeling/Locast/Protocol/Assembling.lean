import Locast.Protocol.ManifestParts

/-!
# What an assembler holds

The invariant of a `PartAssembler` (`PartAssembler.Sound`), what its operations do to its entries up
to their order, and where the bytes of an entry come from (`Entry.Gathered`).
-/

namespace Locast.Protocol

open Locast.Lib

variable {crates : PartCrates} {a a' a'' : PartAssembler} {e e' : Entry}

/-! ### Headers and keys -/

/-- A call of `push`. -/
structure PartPush where
  roomId : Uuid
  part : ManifestPartPayload
  now : ℕ

namespace PartPush

def key (p : PartPush) : Uuid × Uuid := (p.roomId, p.part.assemblyId)

/-- The bytes the piece carries. -/
def bytes (p : PartPush) : List UInt8 := (fromBase64 p.part.data).getD []

end PartPush

/-- What every piece of an assembly repeats. -/
structure PartHeader where
  kind : ManifestPartKind
  total : ℕ
  totalBytes : ℕ
  digest : String
  version : ℤ
  publishedAtMs : ℤ

def ManifestPartPayload.header (part : ManifestPartPayload) : PartHeader :=
  ⟨part.kind, part.total, part.totalBytes, part.digest, part.version, part.publishedAtMs⟩

namespace Entry

def header (e : Entry) : PartHeader :=
  ⟨e.kind, e.total, e.totalBytes, e.digest, e.version, e.publishedAtMs⟩

/-- Where its pieces are looked up. -/
def key (e : Entry) : Uuid × Uuid := (e.roomId, e.assemblyId)

/-- What a newer manifest replaces. -/
def slot (e : Entry) : Uuid × ManifestPartKind := (e.roomId, e.kind)

/-- The entry after one more piece. -/
def extended (e : Entry) (piece : List UInt8) (now : ℕ) : Entry :=
  { e with
    buf := e.buf ++ piece
    ends := e.ends ++ [(e.buf ++ piece).length]
    lastActivity := now }

/-- **An entry is well formed**: its pieces end one after the other, the last of them where the
bytes end, and the bytes fit the declared length. -/
structure Sound (e : Entry) : Prop where
  sorted : e.ends.Pairwise (· ≤ ·)
  last : e.buf.length = e.ends.getLastD 0
  fits : e.buf.length ≤ e.totalBytes

lemma sound_new (roomId : Uuid) (part : ManifestPartPayload) (now : ℕ) :
    (Entry.new roomId part now).Sound := ⟨.nil, rfl, Nat.zero_le _⟩

/-- No piece ends behind the last one. -/
lemma Sound.le_length (h : e.Sound) {t : ℕ} (ht : t ∈ e.ends) : t ≤ e.buf.length := by
  rw [h.last]
  rcases List.eq_nil_or_concat e.ends with hnil | ⟨front, last, hends⟩
  · rw [hnil] at ht
    cases ht
  · have hsorted := h.sorted
    rw [List.concat_eq_append] at hends
    rw [hends] at ht hsorted ⊢
    rw [List.getLastD_concat]
    rcases List.mem_append.1 ht with ht | ht
    · exact (List.pairwise_append.1 hsorted).2.2 t ht last (List.mem_singleton_self last)
    · exact Nat.le_of_eq (List.mem_singleton.1 ht)

lemma Sound.extended (h : e.Sound) {piece : List UInt8}
    (hfits : ¬e.totalBytes < e.buf.length + piece.length) (now : ℕ) :
    (e.extended piece now).Sound where
  sorted := by
    refine List.pairwise_append.2 ⟨h.sorted, List.pairwise_singleton _ _, fun t ht s hs => ?_⟩
    have hle := h.le_length ht
    rw [List.mem_singleton.1 hs, List.length_append]
    omega
  last := by simp [Entry.extended]
  fits := by
    simp only [Entry.extended, List.length_append]
    omega

/-- **A slice is in range.** -/
lemma Sound.slice_isSome (h : e.Sound) {index : ℕ} (hindex : index < e.ends.length) :
    (e.slice index).isSome := by
  have hend := List.getElem?_eq_getElem hindex
  have hle := h.le_length (List.getElem_mem hindex)
  unfold slice
  rw [hend]
  by_cases hzero : index = 0
  · rw [if_pos hzero]
    simp [hle]
  · have hprev := List.getElem?_eq_getElem (l := e.ends) (i := index - 1) (by omega)
    rw [if_neg hzero, hprev]
    have hsorted := List.pairwise_iff_getElem.1 h.sorted (index - 1) index
      (by omega) hindex (by omega)
    simp [hle, hsorted]

/-- The cases of `take`. -/
inductive Takes (crates : PartCrates) (e : Entry) (part : ManifestPartPayload) (piece : List UInt8)
    (now : ℕ) : Entry → Pushed → Prop
  | repeated (hheader : e.header = part.header) (hindex : part.index < e.ends.length)
      (hsame : e.slice part.index = some piece) : Takes crates e part piece now e (.ok none)
  | refused (err : PartError) : Takes crates e part piece now e (.error err)
  | taken (hheader : e.header = part.header) (hindex : part.index = e.ends.length)
      (hfits : ¬e.totalBytes < e.buf.length + piece.length) (hmore : part.index + 1 < e.total) :
      Takes crates e part piece now (e.extended piece now) (.ok none)
  | failed (hfits : ¬e.totalBytes < e.buf.length + piece.length) (err : PartError) :
      Takes crates e part piece now (e.extended piece now) (.error err)
  | completed (hheader : e.header = part.header) (hindex : part.index = e.ends.length)
      (hlast : ¬part.index + 1 < e.total) (hlength : (e.buf ++ piece).length = e.totalBytes)
      (hdigest : crates.sha256Hex (e.buf ++ piece) = e.digest) (manifest : MediaManifest)
      (hparse : crates.fromSlice (e.buf ++ piece) = .ok manifest) :
      Takes crates e part piece now (e.extended piece now)
        (.ok (some ⟨e.roomId, e.kind, e.version, e.publishedAtMs, manifest⟩))

/-- **What `take` does.** -/
lemma take_spec {part : ManifestPartPayload} {piece : List UInt8} {now : ℕ} {result : Pushed}
    (h : e.take crates part piece now = some (e', result)) :
    Takes crates e part piece now e' result := by
  unfold take at h
  split at h
  · cases h
    exact .refused _
  rename_i hsame
  have hheader : e.header = part.header := by
    simp only [not_or, not_not] at hsame
    simp [header, ManifestPartPayload.header, hsame]
  split at h
  · rename_i hindex
    obtain ⟨taken, htaken, h⟩ := Option.map_eq_some_iff.1 h
    split at h <;> cases h
    · rename_i heq
      exact .repeated hheader hindex (heq ▸ htaken)
    · exact .refused _
  split at h
  · cases h
    exact .refused _
  rename_i hindex
  rw [not_not] at hindex
  split at h
  · cases h
    exact .refused _
  rename_i hfits
  dsimp only at h
  split at h
  · rename_i hmore
    cases h
    exact .taken hheader hindex hfits hmore
  rename_i hlast
  split at h
  · cases h
    exact .failed hfits _
  rename_i hlength
  split at h
  · cases h
    exact .failed hfits _
  rename_i hdigest
  split at h <;> cases h
  · exact .failed hfits _
  · rename_i manifest hparse
    exact .completed hheader hindex hlast (not_not.1 hlength) (not_not.1 hdigest) manifest hparse

section Piece

variable {part : ManifestPartPayload} {piece : List UInt8} (now : ℕ)

/-- A header that does not change. -/
lemma not_changed (hheader : e.header = part.header) :
    ¬(e.kind ≠ part.kind ∨ e.total ≠ part.total ∨ e.totalBytes ≠ part.totalBytes ∨
      e.digest ≠ part.digest ∨ e.version ≠ part.version ∨
        e.publishedAtMs ≠ part.publishedAtMs) := by
  simp only [header, ManifestPartPayload.header, PartHeader.mk.injEq] at hheader
  simp [hheader]

lemma take_repeated (hheader : e.header = part.header) (hindex : part.index < e.ends.length)
    (hsame : e.slice part.index = some piece) :
    e.take crates part piece now = some (e, .ok none) := by
  rw [take, if_neg (not_changed hheader), if_pos hindex, hsame, Option.map_some, if_pos rfl]

lemma take_conflict (hheader : e.header = part.header) (hindex : part.index < e.ends.length)
    {taken : List UInt8} (hslice : e.slice part.index = some taken) (hne : taken ≠ piece) :
    e.take crates part piece now = some (e, .error (.conflict part.index)) := by
  rw [take, if_neg (not_changed hheader), if_pos hindex, hslice, Option.map_some, if_neg hne]

lemma take_more (hheader : e.header = part.header) (hindex : part.index = e.ends.length)
    (hfits : ¬e.totalBytes < e.buf.length + piece.length) (hmore : part.index + 1 < e.total) :
    e.take crates part piece now = some (e.extended piece now, .ok none) := by
  rw [take, if_neg (not_changed hheader), if_neg (by omega), if_neg (not_not.2 hindex),
    if_neg hfits]
  dsimp only
  rw [if_pos hmore]
  rfl

lemma take_last (hheader : e.header = part.header) (hindex : part.index = e.ends.length)
    (hlast : ¬part.index + 1 < e.total) (hlength : (e.buf ++ piece).length = e.totalBytes)
    (hdigest : crates.sha256Hex (e.buf ++ piece) = e.digest) {manifest : MediaManifest}
    (hparse : crates.fromSlice (e.buf ++ piece) = .ok manifest) :
    e.take crates part piece now = some (e.extended piece now,
      .ok (some ⟨e.roomId, e.kind, e.version, e.publishedAtMs, manifest⟩)) := by
  rw [List.length_append] at hlength
  rw [take, if_neg (not_changed hheader), if_neg (by omega), if_neg (not_not.2 hindex),
    if_neg (by omega)]
  dsimp only
  rw [if_neg hlast, if_neg (by rw [List.length_append]; omega), if_neg (not_not.2 hdigest), hparse]
  rfl

end Piece

/-- **`take` does not panic** on a well-formed entry. -/
lemma Sound.take_isSome (h : e.Sound) (part : ManifestPartPayload) (piece : List UInt8) (now : ℕ) :
    (e.take crates part piece now).isSome := by
  unfold take
  split
  · rfl
  split
  · rename_i hindex
    rw [Option.isSome_map]
    exact h.slice_isSome hindex
  split
  · rfl
  split
  · rfl
  dsimp only
  split
  · rfl
  split
  · rfl
  split
  · rfl
  split <;> rfl

namespace Takes

variable {part : ManifestPartPayload} {piece : List UInt8} {now : ℕ} {result : Pushed}

lemma key_eq (h : Takes crates e part piece now e' result) : e'.key = e.key := by
  cases h <;> rfl

lemma slot_eq (h : Takes crates e part piece now e' result) : e'.slot = e.slot := by
  cases h <;> rfl

lemma header_eq (h : Takes crates e part piece now e' result) : e'.header = e.header := by
  cases h <;> rfl

lemma sound (h : Takes crates e part piece now e' result) (he : e.Sound) : e'.Sound := by
  cases h with
  | repeated | refused => exact he
  | taken _ _ hfits | failed hfits => exact he.extended hfits now
  | completed _ _ _ hlength =>
    rw [List.length_append] at hlength
    exact he.extended (by omega) now

end Takes

end Entry

/-! ### Removals -/

namespace PartAssembler

/-- The bytes that are reserved for it: those of its entries, and the reservations still to be
dropped. -/
def heldBytes (a : PartAssembler) : ℕ := (a.entries.map (·.totalBytes)).sum + a.dropped.sum

/-- `a'` is `a` without some of its entries, whose reservations are to be dropped. -/
structure Sheds (a a' : PartAssembler) (gone : List Entry) : Prop where
  limit : a'.maxConcurrent = a.maxConcurrent
  ttl : a'.ttl = a.ttl
  entries : a.entries.Perm (a'.entries ++ gone)
  dropped : a'.dropped = a.dropped ++ gone.map (·.totalBytes)

namespace Sheds

variable {gone gone' : List Entry}

lemma refl (a : PartAssembler) : Sheds a a [] := ⟨rfl, rfl, by simp, by simp⟩

lemma trans (h : Sheds a a' gone) (h' : Sheds a' a'' gone') : Sheds a a'' (gone ++ gone') where
  limit := h'.limit.trans h.limit
  ttl := h'.ttl.trans h.ttl
  entries := by
    refine (h.entries.trans (h'.entries.append_right gone)).trans ?_
    rw [List.append_assoc]
    exact List.perm_append_comm.append_left a''.entries
  dropped := by rw [h'.dropped, h.dropped, List.map_append, List.append_assoc]

lemma mem (h : Sheds a a' gone) (he : e ∈ a'.entries) : e ∈ a.entries :=
  h.entries.mem_iff.2 (List.mem_append_left _ he)

lemma heldBytes (h : Sheds a a' gone) : a'.heldBytes = a.heldBytes := by
  have hsum := (h.entries.map (·.totalBytes)).sum_nat
  rw [List.map_append, List.sum_append] at hsum
  rw [PartAssembler.heldBytes, PartAssembler.heldBytes, h.dropped, List.sum_append, hsum]
  omega

end Sheds

lemma retain_sheds (a : PartAssembler) (keep : Entry → Bool) :
    Sheds a (a.retain keep) (a.entries.filter (!keep ·)) :=
  ⟨rfl, rfl, (List.filter_append_perm keep a.entries).symm, rfl⟩

lemma swapRemove_sheds {pos : ℕ} (h : a.entries[pos]? = some e) :
    Sheds a (a.swapRemove pos) [e] where
  limit := rfl
  ttl := rfl
  entries := (swapRemove_perm h).symm.trans (List.perm_append_singleton e _).symm
  dropped := by simp [swapRemove, h]

/-- The oldest entry is one of the entries. -/
lemma oldest_lt {entries : List Entry} (h : entries ≠ []) : oldest entries < entries.length := by
  unfold oldest
  cases hleast : least (fun a b => decide (a.1.lastActivity < b.1.lastActivity)) entries.zipIdx with
  | none => exact List.length_pos_of_ne_nil h
  | some found =>
    have hmem := List.mem_zipIdx (least_mem hleast)
    simpa using hmem.2.1

lemma evict_sheds (n : ℕ) (a : PartAssembler) (hpos : 0 < a.maxConcurrent) :
    ∃ gone, Sheds a (a.evict n) gone := by
  induction n generalizing a with
  | zero => exact ⟨[], .refl a⟩
  | succ n ih =>
    rw [evict]
    split
    · rename_i hfull
      have hlt : oldest a.entries < a.entries.length := oldest_lt (by
        rintro hnil
        rw [hnil] at hfull
        exact absurd hfull (Nat.not_le.2 hpos))
      have hgone := swapRemove_sheds (List.getElem?_eq_getElem hlt)
      obtain ⟨gone, hrest⟩ := ih (a.swapRemove (oldest a.entries)) hpos
      exact ⟨_, hgone.trans hrest⟩
    · exact ⟨[], .refl a⟩

/-- **The evictions make room.** -/
lemma evict_length (n : ℕ) (a : PartAssembler) (hpos : 0 < a.maxConcurrent)
    (hn : a.entries.length < a.maxConcurrent + n) :
    (a.evict n).entries.length < a.maxConcurrent := by
  induction n generalizing a with
  | zero => exact hn
  | succ n ih =>
    rw [evict]
    split
    · rename_i hfull
      have hlt : oldest a.entries < a.entries.length := oldest_lt (by
        rintro hnil
        rw [hnil] at hfull
        exact absurd hfull (Nat.not_le.2 hpos))
      have hlength : (a.swapRemove (oldest a.entries)).entries.length + 1 = a.entries.length :=
        length_swapRemove hlt
      exact ih (a.swapRemove (oldest a.entries)) hpos (by
        change _ < a.maxConcurrent + n
        omega)
    · rename_i hroom
      omega

/-- **`begin` up to the reservation**: some entries are gone, among them the one of the slot, and
there is room for another. -/
lemma makeRoom_spec (a : PartAssembler) (roomId : Uuid) (kind : ManifestPartKind)
    (hpos : 0 < a.maxConcurrent) :
    (∃ gone, Sheds a (a.makeRoom roomId kind) gone) ∧
      (∀ e ∈ (a.makeRoom roomId kind).entries, e.slot ≠ (roomId, kind)) ∧
      (a.makeRoom roomId kind).entries.length < a.maxConcurrent := by
  have hretain := retain_sheds a fun e => !(e.roomId = roomId && e.kind = kind)
  have hpos' : 0 < (a.retain fun e => !(e.roomId = roomId && e.kind = kind)).maxConcurrent := hpos
  obtain ⟨gone, hevict⟩ := evict_sheds _ _ hpos'
  refine ⟨⟨_, hretain.trans hevict⟩, fun e he hslot => ?_, 
    evict_length _ _ hpos (Nat.lt_add_of_pos_left hpos)⟩
  have hkept := (List.mem_filter.1 (hevict.mem he)).2
  simp only [Entry.slot, Prod.mk.injEq] at hslot
  simp [hslot] at hkept

/-- **An assembler is well formed.** -/
structure Sound (a : PartAssembler) : Prop where
  positive : 0 < a.maxConcurrent
  bounded : a.entries.length ≤ a.maxConcurrent
  entries : ∀ e ∈ a.entries, e.Sound
  keys : (a.entries.map Entry.key).Nodup
  slots : (a.entries.map Entry.slot).Nodup

lemma sound_new (maxConcurrent ttl : ℕ) : (new maxConcurrent ttl).Sound where
  positive := Nat.lt_of_lt_of_le Nat.zero_lt_one (Nat.le_max_right ..)
  bounded := Nat.zero_le _
  entries _ he := by cases he
  keys := .nil
  slots := .nil

lemma Sound.sheds {gone : List Entry} (h : a.Sound) (hs : Sheds a a' gone) : a'.Sound where
  positive := by
    rw [hs.limit]
    exact h.positive
  bounded := by
    have hlength := hs.entries.length_eq
    have hbounded := h.bounded
    rw [List.length_append] at hlength
    rw [hs.limit]
    omega
  entries e he := h.entries e (hs.mem he)
  keys := by
    have hkeys := (hs.entries.map Entry.key).nodup_iff.1 h.keys
    rw [List.map_append] at hkeys
    exact (List.nodup_append.1 hkeys).1
  slots := by
    have hslots := (hs.entries.map Entry.slot).nodup_iff.1 h.slots
    rw [List.map_append] at hslots
    exact (List.nodup_append.1 hslots).1

/-! ### The end of a push -/

/-- **What the end of a push does** with the entry at its position. -/
structure Finishes (crates : PartCrates) (a : PartAssembler) (e : Entry)
    (part : ManifestPartPayload) (piece : List UInt8) (now : ℕ) (a' : PartAssembler)
    (result : Pushed) (e' : Entry)
    (others : List Entry) : Prop where
  limit : a'.maxConcurrent = a.maxConcurrent
  ttl : a'.ttl = a.ttl
  take_eq : e.take crates part piece now = some (e', result)
  before : a.entries.Perm (e :: others)
  after : a'.entries.Perm (if result = .ok none then e' :: others else others)
  dropped : a'.dropped = a.dropped ++ if result = .ok none then [] else [e.totalBytes]

lemma finish_spec {pos : ℕ} {part : ManifestPartPayload} {piece : List UInt8} {now : ℕ}
    {result : Pushed} (hpos : a.entries[pos]? = some e)
    (h : a.finish crates pos part piece now = some (a', result)) :
    ∃ e' others, Finishes crates a e part piece now a' result e' others := by
  simp only [finish, hpos] at h
  obtain ⟨⟨e', taken⟩, htake, h⟩ := Option.map_eq_some_iff.1 h
  obtain ⟨hlt, hget⟩ := List.getElem?_eq_some_iff.1 hpos
  have hbytes : e'.totalBytes = e.totalBytes :=
    congrArg PartHeader.totalBytes (Entry.take_spec htake).header_eq
  have hbefore : a.entries.Perm (e :: a.entries.eraseIdx pos) := by
    rw [← hget]
    exact (List.getElem_cons_eraseIdx_perm hlt).symm
  have hset : (a.entries.set pos e').Perm (e' :: a.entries.eraseIdx pos) :=
    List.set_perm_cons_eraseIdx hlt e'
  -- the entry is removed
  have hremoved (r : Pushed) (hr : r ≠ .ok none)
    (htake : e.take crates part piece now = some (e', r)) :
      Finishes crates a e part piece now
        ({ a with entries := a.entries.set pos e' }.swapRemove pos) r e'
          (a.entries.eraseIdx pos) := by
    have hgone : Sheds { a with entries := a.entries.set pos e' }
        ({ a with entries := a.entries.set pos e' }.swapRemove pos) [e'] :=
      swapRemove_sheds (by simp [hlt])
    refine ⟨rfl, rfl, htake, hbefore, ?_, ?_⟩
    · rw [if_neg hr]
      have hperm := (hgone.entries.trans (List.perm_append_singleton e' _)).symm.trans hset
      exact hperm.cons_inv
    · rw [if_neg hr, hgone.dropped, List.map_singleton, hbytes]
  refine ⟨e', a.entries.eraseIdx pos, ?_⟩
  cases taken with
  | error err =>
    cases h
    exact hremoved _ (by simp) htake
  | ok done =>
    cases done with
    | none =>
      cases h
      exact ⟨rfl, rfl, htake, hbefore, by simpa using hset, by simp⟩
    | some m =>
      cases h
      exact hremoved _ (by simp) htake

namespace Finishes

variable {part : ManifestPartPayload} {piece : List UInt8} {now : ℕ} {result : Pushed}
  {others : List Entry}

lemma takes (h : Finishes crates a e part piece now a' result e' others) :
    e.Takes crates part piece now e' result := Entry.take_spec h.take_eq

/-- An entry afterwards is the one that took the piece, or one of the others. -/
lemma mem (h : Finishes crates a e part piece now a' result e' others) {x : Entry}
    (hx : x ∈ a'.entries) : (x = e' ∧ result = .ok none) ∨ x ∈ others := by
  have hx := h.after.mem_iff.1 hx
  split at hx
  · rename_i hnone
    rcases List.mem_cons.1 hx with rfl | hx
    · exact .inl ⟨rfl, hnone⟩
    · exact .inr hx
  · exact .inr hx

lemma mem_before (h : Finishes crates a e part piece now a' result e' others) {x : Entry}
    (hx : x ∈ others) : x ∈ a.entries := h.before.mem_iff.2 (List.mem_cons_of_mem _ hx)

/-- A reservation goes with its entry. -/
lemma heldBytes (h : Finishes crates a e part piece now a' result e' others) :
    a'.heldBytes = a.heldBytes := by
  have hbytes : e'.totalBytes = e.totalBytes := congrArg PartHeader.totalBytes h.takes.header_eq
  have hbefore := (h.before.map (·.totalBytes)).sum_nat
  have hafter := (h.after.map (·.totalBytes)).sum_nat
  rw [PartAssembler.heldBytes, PartAssembler.heldBytes, hafter, hbefore, h.dropped]
  split
  · simpa using hbytes
  · simp only [List.map_cons, List.sum_cons, List.sum_append, List.sum_nil]
    omega

lemma sound (h : Finishes crates a e part piece now a' result e' others) (ha : a.Sound) :
    a'.Sound where
  positive := by
    rw [h.limit]
    exact ha.positive
  bounded := by
    have hbefore := h.before.length_eq
    have hafter := h.after.length_eq
    have hbounded := ha.bounded
    rw [List.length_cons] at hbefore
    rw [h.limit]
    split at hafter
    · rw [List.length_cons] at hafter
      omega
    · omega
  entries x hx := by
    rcases h.mem hx with ⟨rfl, -⟩ | hx
    · exact h.takes.sound (ha.entries e (h.before.mem_iff.2 List.mem_cons_self))
    · exact ha.entries x (h.mem_before hx)
  keys := by
    have hkeys := (h.before.map Entry.key).nodup_iff.1 ha.keys
    refine (h.after.map Entry.key).nodup_iff.2 ?_
    split
    · rwa [List.map_cons, h.takes.key_eq, ← List.map_cons]
    · exact (List.nodup_cons.1 hkeys).2
  slots := by
    have hslots := (h.before.map Entry.slot).nodup_iff.1 ha.slots
    refine (h.after.map Entry.slot).nodup_iff.2 ?_
    split
    · rwa [List.map_cons, h.takes.slot_eq, ← List.map_cons]
    · exact (List.nodup_cons.1 hslots).2

end Finishes

/-- **The end of a push does not panic.** -/
lemma Sound.finish_isSome (crates : PartCrates) (ha : a.Sound) {pos : ℕ}
    (hpos : pos < a.entries.length) (part : ManifestPartPayload) (piece : List UInt8) (now : ℕ) :
    (a.finish crates pos part piece now).isSome := by
  rw [finish, List.getElem?_eq_getElem hpos]
  dsimp only
  rw [Option.isSome_map]
  exact (ha.entries _ (List.getElem_mem hpos)).take_isSome part piece now

/-- Where the pieces of an assembly go is where its entry is. -/
lemma position_eq_some {pos : ℕ} {roomId assemblyId : Uuid}
    (h : a.position roomId assemblyId = some pos) :
    ∃ e, a.entries[pos]? = some e ∧ e.key = (roomId, assemblyId) := by
  obtain ⟨hlt, hfound, -⟩ := List.findIdx?_eq_some_iff_getElem.1 h
  refine ⟨_, List.getElem?_eq_getElem hlt, ?_⟩
  simp only [Bool.and_eq_true, decide_eq_true_eq] at hfound
  simp [Entry.key, hfound]

lemma position_eq_none {roomId assemblyId : Uuid} (h : a.position roomId assemblyId = none) :
    ∀ e ∈ a.entries, e.key ≠ (roomId, assemblyId) := by
  intro e he hkey
  have hno := List.findIdx?_eq_none_iff.1 h e he
  simp only [Entry.key, Prod.mk.injEq] at hkey
  simp [hkey] at hno

end PartAssembler

/-! ### Pushes -/

/-- What `validate_header` has checked. -/
lemma index_lt_of_validateHeader {part : ManifestPartPayload} (hv : validateHeader part = .ok ()) :
    part.index < part.total := by
  unfold validateHeader at hv
  split at hv
  · cases hv
  split at hv
  · cases hv
  · omega

variable {p : PartPush}

namespace PartAssembler

/-- What a push has come to: it was refused, it has gone on with the assembly of its piece, or it is
about to begin one. -/
inductive Offers (crates : PartCrates) (a : PartAssembler) (p : PartPush) : Offered → Prop
  | refused {a' : PartAssembler} {gone : List Entry} (hs : Sheds (a.expire p.now) a' gone)
      (hkept : ∀ e ∈ (a.expire p.now).entries, e.key ≠ p.key → e ∈ a'.entries) (err : PartError) :
      Offers crates a p (.done a' (.error err))
  | continues {a' : PartAssembler} {piece : List UInt8} {pos : ℕ} {result : Pushed}
      (hvalid : validateHeader p.part = .ok ()) (hpiece : fromBase64 p.part.data = some piece)
      (hpos : (a.expire p.now).position p.roomId p.part.assemblyId = some pos)
      (hfinish : (a.expire p.now).finish crates pos p.part piece p.now = some (a', result)) :
      Offers crates a p (.done a' result)
  | begins {piece : List UInt8} (hvalid : validateHeader p.part = .ok ())
      (hpiece : fromBase64 p.part.data = some piece)
      (hpos : (a.expire p.now).position p.roomId p.part.assemblyId = none) :
      Offers crates a p (.reserve ((a.expire p.now).makeRoom p.roomId p.part.kind) piece)

/-- **What a push does up to its reservation.** -/
lemma Sound.offers (crates : PartCrates) (ha : a.Sound) (p : PartPush) :
    ∃ offered, a.offer crates p.roomId p.part p.now = some offered ∧ Offers crates a p offered := by
  have hsound : (a.expire p.now).Sound := ha.sheds (retain_sheds a _)
  have hrefused (err : PartError) : Offers crates a p (.done (a.expire p.now) (.error err)) :=
    .refused (.refl _) (fun _ he _ => he) err
  have hdropped :
      Offers crates a p (.done ((a.expire p.now).dropAssembly p.roomId p.part.assemblyId)
        (.error (.badPiece p.part.index))) := by
    refine .refused (retain_sheds _ _) (fun e he hkey => List.mem_filter.2 ⟨he, ?_⟩) _
    simpa [Entry.key, PartPush.key, imp_iff_not_or] using hkey
  unfold offer
  dsimp only
  split
  · exact ⟨_, rfl, hrefused _⟩
  rename_i hvalid
  split
  · exact ⟨_, rfl, hdropped⟩
  split
  · exact ⟨_, rfl, hdropped⟩
  rename_i piece hpiece
  split
  · exact ⟨_, rfl, hdropped⟩
  split
  · rename_i pos hpos
    obtain ⟨e, he, -⟩ := position_eq_some hpos
    obtain ⟨⟨a', result⟩, hfinish⟩ := Option.isSome_iff_exists.1
      (hsound.finish_isSome crates (List.getElem?_eq_some_iff.1 he).1 p.part piece p.now)
    exact ⟨.done a' result, by rw [hfinish, Option.map_some], .continues hvalid hpiece hpos hfinish⟩
  rename_i hpos
  split
  · exact ⟨_, rfl, hrefused _⟩
  · exact ⟨_, rfl, .begins hvalid hpiece hpos⟩

/-- `begin`, once the reservation is made. -/
def begun (a : PartAssembler) (p : PartPush) : PartAssembler :=
  { a with entries := a.entries ++ [Entry.new p.roomId p.part p.now] }

/-- The assembler with a new entry in it. -/
lemma Sound.begun (ha : a.Sound) (hroom : a.entries.length < a.maxConcurrent)
    (hkey : ∀ e ∈ a.entries, e.key ≠ p.key)
    (hslot : ∀ e ∈ a.entries, e.slot ≠ (p.roomId, p.part.kind)) : (a.begun p).Sound where
  positive := ha.positive
  bounded := by
    rw [PartAssembler.begun, List.length_append]
    exact hroom
  entries e he := by
    rcases List.mem_append.1 he with he | he
    · exact ha.entries e he
    · rw [List.mem_singleton.1 he]
      exact Entry.sound_new p.roomId p.part p.now
  keys := by
    rw [PartAssembler.begun, List.map_append]
    refine List.nodup_append.2 ⟨ha.keys, List.pairwise_singleton _ _, fun k hk k' hk' => ?_⟩
    obtain ⟨e, he, rfl⟩ := List.mem_map.1 hk
    rw [List.mem_singleton.1 hk']
    exact hkey e he
  slots := by
    rw [PartAssembler.begun, List.map_append]
    refine List.nodup_append.2 ⟨ha.slots, List.pairwise_singleton _ _, fun k hk k' hk' => ?_⟩
    obtain ⟨e, he, rfl⟩ := List.mem_map.1 hk
    rw [List.mem_singleton.1 hk']
    exact hslot e he

/-- **What a push does from its reservation on**: the new entry takes the piece. -/
lemma Sound.accepts (crates : PartCrates) (ha : (a.begun p).Sound) (piece : List UInt8) :
    ∃ a' result e' others, a.accept crates p.roomId p.part piece p.now = some (a', result) ∧
      Finishes crates (a.begun p) (Entry.new p.roomId p.part p.now) p.part piece p.now a' result e'
        others ∧ others.Perm a.entries := by
  have hpos : (a.begun p).entries[a.entries.length]? = some (Entry.new p.roomId p.part p.now) := by
    simp [PartAssembler.begun]
  obtain ⟨⟨a', result⟩, hfinish⟩ := Option.isSome_iff_exists.1
    (ha.finish_isSome crates (List.getElem?_eq_some_iff.1 hpos).1 p.part piece p.now)
  obtain ⟨e', others, hf⟩ := finish_spec hpos hfinish
  exact ⟨a', result, e', others, hfinish, hf,
    ((List.perm_append_singleton _ _).symm.trans hf.before).cons_inv.symm⟩

/-- A push keeps an assembler well formed. -/
lemma Sound.push (ha : a.Sound) {reserved : Except PartError Unit} {result : Pushed}
    (h : a.push crates reserved p.roomId p.part p.now = some (a', result)) :
    a'.Sound ∧ a'.ttl = a.ttl := by
  have hsound : (a.expire p.now).Sound := ha.sheds (retain_sheds a _)
  obtain ⟨offered, hoffer, hcase⟩ := ha.offers crates p
  simp only [PartAssembler.push, hoffer] at h
  cases hcase with
  | refused hs =>
    cases h
    exact ⟨hsound.sheds hs, hs.ttl⟩
  | continues hvalid hpiece hpos hfinish =>
    cases h
    obtain ⟨e, he, hkey⟩ := position_eq_some hpos
    obtain ⟨e', others, hf⟩ := finish_spec he hfinish
    exact ⟨hf.sound hsound, hf.ttl⟩
  | @begins piece hvalid hpiece hpos =>
    obtain ⟨⟨gone, hs⟩, hslot, hroom⟩ :=
      makeRoom_spec (a.expire p.now) p.roomId p.part.kind hsound.positive
    dsimp only at h
    cases reserved with
    | error err =>
      cases h
      exact ⟨hsound.sheds hs, hs.ttl⟩
    | ok =>
      have hbegun := (hsound.sheds hs).begun (by rwa [hs.limit])
        (fun e he => position_eq_none hpos e (hs.mem he)) hslot
      obtain ⟨a₁, r, e', others, haccept, hf, -⟩ := hbegun.accepts crates piece
      cases haccept.symm.trans h
      exact ⟨hf.sound hbegun, hf.ttl.trans hs.ttl⟩

end PartAssembler

end Locast.Protocol
