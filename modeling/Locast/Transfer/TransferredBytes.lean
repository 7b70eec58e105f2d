import Locast.Transfer.ChunkRows
import Mathlib.Data.List.Dedup

/-!
# The transferred bytes of a download

`transferred_bytes` is the sum of the rows that count as transferred, except between the `UPDATE` of
a `mark_chunk_verified` and its refresh, as long as every other statement leaves that sum, or sets
the column to the new sum itself.
-/

namespace Locast.Transfer

open Locast.Lib
open Locast.Lib.System (Did.record Handled)

/-! ### Sums -/

/-- What a row adds to the sum. -/
def ChunkRow.weight (row : ChunkRow) : ℕ := if row.counted then row.length else 0

lemma ChunkRow.weight_of_not_counted {row : ChunkRow} (h : row.counted = false) :
    row.weight = 0 := by
  rw [weight, h]
  rfl

namespace Download

variable {d d' : Download} {index totalBytes : ℕ} {row : ChunkRow} {chunk : ℕ × String}
  {hashes : List (ℕ × String)}

lemma countedBytes_of_insert {old : ChunkRow} (hd' : d'.chunks = d.chunks.insert index row)
    (h : d.chunks.get index = some old) (hw : row.weight = old.weight) :
    d'.countedBytes = d.countedBytes := by
  change d'.chunks.sumBy ChunkRow.weight = d.chunks.sumBy ChunkRow.weight
  rw [hd', AList.sumBy_insert, AList.sumBy_of_get ChunkRow.weight h, hw]

lemma countedBytes_of_insert_new (hd' : d'.chunks = d.chunks.insert index row)
    (h : d.chunks.get index = none) : d'.countedBytes = row.weight + d.countedBytes := by
  change d'.chunks.sumBy ChunkRow.weight = _ + d.chunks.sumBy ChunkRow.weight
  rw [hd', AList.sumBy_insert, AList.erase_of_notMem (AList.get_eq_none.1 h)]

lemma countedBytes_of_map {g : ℕ → ChunkRow → ChunkRow} (hd' : d'.chunks = d.chunks.mapKeyed g)
    (hw : ∀ index row, d.chunks.get index = some row → (g index row).weight = row.weight) :
    d'.countedBytes = d.countedBytes := by
  change d'.chunks.sumBy ChunkRow.weight = d.chunks.sumBy ChunkRow.weight
  rw [hd', AList.sumBy, AList.sumBy, AList.vals, AList.vals]
  simp only [AList.mapKeyed, List.map_map]
  refine congrArg List.sum (List.map_congr_left fun e he => ?_)
  exact hw e.1 e.2 (AList.get_eq_some_iff.2 he)

/-! ### The rows that a completion counts -/

/-- The length of a chunk's row, or the one that `mark_complete` gives it. -/
def lengthOf (totalBytes : ℕ) (d : Download) (index : ℕ) : ℕ :=
  match d.chunks.get index with
  | some row => row.length
  | none => max (min Transfer.chunkSizeBytes (totalBytes - index * Transfer.chunkSizeBytes)) 1

/-- The chunks that count as transferred. -/
def countedIndices (d : Download) : List ℕ := (d.chunks.keep fun _ row => row.counted).keys

/-- The bytes of the chunks that count as transferred or are named by `hashes`. -/
def bytesWith (totalBytes : ℕ) (hashes : List (ℕ × String)) (d : Download) : ℕ :=
  ((d.countedIndices ++ hashes.map Prod.fst).dedup.map (d.lengthOf totalBytes)).sum

lemma mem_countedIndices : index ∈ d.countedIndices ↔
    ∃ row, d.chunks.get index = some row ∧ row.counted = true := by
  rw [countedIndices, ← AList.mem_keys, AList.mem_iff_get, AList.get_keep]
  cases d.chunks.get index with
  | none => simp
  | some row => simp [Option.filter]

lemma bytesWith_nil : d.bytesWith totalBytes [] = d.countedBytes := by
  have hnodup : d.countedIndices.Nodup := by
    unfold countedIndices
    exact AList.keys_nodup _
  rw [bytesWith, List.map_nil, List.append_nil, hnodup.dedup, countedIndices, AList.keys,
    List.keys, List.map_map]
  change ((d.chunks.entries.filter fun e => e.2.counted).map _).sum =
    ((d.chunks.entries.map Sigma.snd).map ChunkRow.weight).sum
  have hlen : ∀ e ∈ d.chunks.entries, d.lengthOf totalBytes e.1 = e.2.length := fun e he => by
    rw [lengthOf, AList.get_eq_some_iff.2 he]
  generalize d.chunks.entries = l at hlen
  induction l with
  | nil => rfl
  | cons e l ih =>
    have ih := ih fun e' he' => hlen e' (List.mem_cons_of_mem _ he')
    have he := hlen e List.mem_cons_self
    by_cases hc : e.2.counted = true
    · rw [List.filter_cons, if_pos hc, List.map_cons, List.sum_cons, ih]
      simp [ChunkRow.weight, hc, he]
    · rw [List.filter_cons, if_neg hc, ih]
      simp [ChunkRow.weight, hc]

/-- Upserting a named chunk counts it. -/
lemma bytesWith_upsertVerified : (d.upsertVerified totalBytes chunk).bytesWith totalBytes hashes =
    d.bytesWith totalBytes (chunk :: hashes) := by
  have hrow : ∃ row, (d.upsertVerified totalBytes chunk).chunks = d.chunks.insert chunk.1 row ∧
      row.counted = true ∧ row.length = d.lengthOf totalBytes chunk.1 := by
    unfold upsertVerified
    dsimp only
    split
    · rename_i h
      exact ⟨_, rfl, rfl, by simp [lengthOf, h]⟩
    · rename_i old h
      exact ⟨_, rfl, rfl, by simp [lengthOf, h]⟩
  obtain ⟨row, hchunks, hcounted, hlength⟩ := hrow
  have hlen : (d.upsertVerified totalBytes chunk).lengthOf totalBytes = d.lengthOf totalBytes := by
    funext index
    by_cases heq : index = chunk.1
    · subst heq
      rw [← hlength, lengthOf, hchunks, AList.get_insert_self]
    · rw [lengthOf, hchunks, AList.get_insert, if_neg heq, lengthOf]
  have hmem : ∀ index, index ∈ (d.upsertVerified totalBytes chunk).countedIndices ↔
      index = chunk.1 ∨ index ∈ d.countedIndices := by
    intro index
    rw [mem_countedIndices, mem_countedIndices, hchunks, AList.get_insert]
    by_cases heq : index = chunk.1
    · simp [heq, hcounted]
    · simp [heq]
  rw [bytesWith, bytesWith, hlen]
  refine (List.Perm.map _ ?_).sum_eq
  refine (List.perm_ext_iff_of_nodup (List.nodup_dedup _) (List.nodup_dedup _)).2 fun index => ?_
  simp only [List.mem_dedup, List.mem_append, hmem, List.map_cons, List.mem_cons]
  tauto

lemma bytesWith_of_chunks (hd' : d'.chunks = d.chunks) :
    d'.bytesWith totalBytes hashes = d.bytesWith totalBytes hashes := by
  have hlen : d'.lengthOf totalBytes = d.lengthOf totalBytes := by
    funext index
    rw [lengthOf, lengthOf, hd']
  rw [bytesWith, bytesWith, countedIndices, countedIndices, hd', hlen]

lemma countedBytes_upserts : (hashes.foldl (fun d chunk => d.upsertVerified totalBytes chunk)
    d).countedBytes = d.bytesWith totalBytes hashes := by
  induction hashes generalizing d with
  | nil => exact bytesWith_nil.symm
  | cons chunk hashes ih => rw [List.foldl_cons, ih, bytesWith_upsertVerified]

end Download

/-! ### Edits that keep the sum -/

/-- The column is the sum. -/
def Download.settled (d : Download) : Prop := d.transferredBytes = d.countedBytes

/-- Neither the column nor the sum changes. -/
def SameBytes (d d' : Download) : Prop :=
  d'.transferredBytes = d.transferredBytes ∧ d'.countedBytes = d.countedBytes

namespace SameBytes

variable {d d' d'' : Download}

lemma trans (h : SameBytes d d') (h' : SameBytes d' d'') : SameBytes d d'' :=
  ⟨h'.1.trans h.1, h'.2.trans h.2⟩

lemma of_chunks (ht : d'.transferredBytes = d.transferredBytes) (hc : d'.chunks = d.chunks) :
    SameBytes d d' := ⟨ht, by rw [Download.countedBytes, hc, Download.countedBytes]⟩

lemma settled (h : SameBytes d d') (hd : d.settled) : d'.settled :=
  h.1.trans ((show d.transferredBytes = d.countedBytes from hd).trans h.2.symm)

lemma insertChunk {index : ℕ} {row : ChunkRow} (hrow : row.weight = 0) :
    SameBytes d (d.insertChunk index row) := by
  unfold Download.insertChunk
  split
  · rename_i hnone
    exact ⟨rfl, by rw [Download.countedBytes_of_insert_new rfl hnone, hrow, zero_add]⟩
  · exact of_chunks rfl rfl

lemma cutChunks {total : ℕ} (hin : ∀ index row, d.chunks.get index = some row →
    row.counted = true → index < total) : SameBytes d (d.cutChunks total) := by
  refine ⟨rfl, Download.countedBytes_of_map (g := fun index row =>
    if total ≤ index then { row with state := .failed } else row) rfl fun index row hrow => ?_⟩
  by_cases hcut : total ≤ index
  · have hc : row.counted = false :=
      Bool.eq_false_iff.2 fun hc => Nat.not_lt.2 hcut (hin index row hrow hc)
    rw [if_pos hcut, ChunkRow.weight_of_not_counted hc, ChunkRow.weight_of_not_counted rfl]
  · simp [hcut]

end SameBytes

/-- A reconciled chunk is left alone, or its row, which declared another hash, becomes pending. -/
lemma reconcileChunk_cases (d : Download) (chunk : ℕ × String) : d.reconcileChunk chunk = d ∨
    ∃ row : ChunkRow, row.state = .pending ∧
      d.reconcileChunk chunk = { d with chunks := d.chunks.insert chunk.1 row } ∧
      ∀ old, d.chunks.get chunk.1 = some old → old.sha256 ≠ chunk.2 := by
  unfold Download.reconcileChunk
  split
  · rename_i old hold
    split
    · rename_i hne
      refine .inr ⟨{ old with sha256 := chunk.2, state := .pending }, rfl, rfl,
        fun old' hold' => ?_⟩
      rw [← Option.some.inj (hold.symm.trans hold')]
      exact hne
    · exact .inl rfl
  · rename_i hnone
    refine .inr ⟨⟨chunk.1 * chunkSizeBytes, chunkSizeBytes, chunk.2, .pending⟩, rfl, ?_,
      fun old hold => ?_⟩
    · simp only [Download.insertChunk, hnone]
    · rw [hnone] at hold
      cases hold

lemma counted_pending {row : ChunkRow} (h : row.state = .pending) : row.counted = false := by
  rw [ChunkRow.counted, h]
  rfl

/-- A chunk whose row does not count, or has the hash of the new manifest. -/
lemma sameBytes_reconcileChunk {d : Download} {chunk : ℕ × String}
    (hstand : ∀ row, d.chunks.get chunk.1 = some row → row.counted = true →
      chunk.2 = row.sha256) : SameBytes d (d.reconcileChunk chunk) := by
  rcases reconcileChunk_cases d chunk with h | ⟨row, hp, h, hne⟩
  · rw [h]
    exact .of_chunks rfl rfl
  rw [h]
  have hw := ChunkRow.weight_of_not_counted (counted_pending hp)
  refine ⟨rfl, ?_⟩
  cases hget : d.chunks.get chunk.1 with
  | none => rw [Download.countedBytes_of_insert_new rfl hget, hw, zero_add]
  | some old =>
    have hc : old.counted = false :=
      Bool.eq_false_iff.2 fun hc => hne old hget (hstand old hget hc).symm
    exact Download.countedBytes_of_insert rfl hget
      (hw.trans (ChunkRow.weight_of_not_counted hc).symm)

/-- The counted rows after a reconciliation of one chunk are counted rows from before. -/
lemma counted_reconcileChunk {d : Download} {chunk : ℕ × String} {index : ℕ} {row : ChunkRow}
    (hget : (d.reconcileChunk chunk).chunks.get index = some row) (hc : row.counted = true) :
    d.chunks.get index = some row := by
  rcases reconcileChunk_cases d chunk with h | ⟨new, hp, h, -⟩
  · exact h ▸ hget
  · rw [h, AList.get_insert] at hget
    split at hget
    · obtain rfl := Option.some.inj hget
      rw [counted_pending hp] at hc
      cases hc
    · exact hget

/-- **A republished manifest** that touches no counted row keeps the sum. -/
lemma sameBytes_reconcile {d : Download} {hashes : List (ℕ × String)}
    (hkeep : ∀ index row, d.chunks.get index = some row → row.counted = true →
      index < hashes.length ∧ ∀ sha256, (index, sha256) ∈ hashes → sha256 = row.sha256) :
    SameBytes d (((hashes.map Download.reconcileChunk).foldl (fun d f => f d) d).cutChunks
      hashes.length) := by
  obtain ⟨hsame, hrows⟩ : SameBytes d ((hashes.map Download.reconcileChunk).foldl
      (fun d f => f d) d) ∧ ∀ index row, ((hashes.map Download.reconcileChunk).foldl
      (fun d f => f d) d).chunks.get index = some row → row.counted = true →
        d.chunks.get index = some row := by
    refine List.foldlRecOn (motive := fun d' : Download => SameBytes d d' ∧ ∀ index row,
      d'.chunks.get index = some row → row.counted = true → d.chunks.get index = some row) _ _
      ⟨.of_chunks rfl rfl, fun _ _ h _ => h⟩ fun d' hd' f hf => ?_
    obtain ⟨chunk, hmem, rfl⟩ := List.mem_map.1 hf
    refine ⟨hd'.1.trans (sameBytes_reconcileChunk fun row hrow hc => ?_),
      fun index row hget hc => ?_⟩
    · exact (hkeep _ row (hd'.2 _ row hrow hc) hc).2 _ hmem
    · exact hd'.2 index row (counted_reconcileChunk hget hc) hc
  refine hsame.trans (.cutChunks fun index row hrow hc => ?_)
  exact (hkeep index row (hrows index row hrow hc) hc).1

/-- `mark_complete` climbs to the end from these states. -/
def DownloadState.climbs : DownloadState → Bool
  | pending | connecting | transferring | verifying => true
  | _ => false

lemma ladder_spec (now : ℤ) (totalBytes : ℕ) (sourcePeerId : Option String) (d : Download) :
    ([Download.raise .pending .connecting, Download.raise .connecting .transferring,
      Download.raise .transferring .verifying, Download.finish now totalBytes sourcePeerId].foldl
        (fun d f => f d) d).chunks = d.chunks ∧
    ([Download.raise .pending .connecting, Download.raise .connecting .transferring,
      Download.raise .transferring .verifying, Download.finish now totalBytes sourcePeerId].foldl
        (fun d f => f d) d).transferredBytes =
      if d.state.climbs then totalBytes else d.transferredBytes := by
  cases hs : d.state <;>
    simp [Download.raise, Download.finish, DownloadState.climbs, hs]

/-! ### One step -/

/-- The column of a stored download is the sum. -/
def Settled (id : String) (db : Db) : Prop := ∀ d, db.get id = some d → d.settled

/-- **The condition on a step**: a chunk is marked received whose row counts already; no refresh
fails; a republished manifest touches no row that counts; and `mark_complete` is told as many bytes
as its chunks have, or names only chunks that count when it does not complete the download. -/
structure SumKept (d : StoreStep) : Prop where
  received : ∀ id index, Did.record d = ⟨.setReceived id index, .ok ()⟩ →
    ∀ row, d.before.chunkOf id index = some row → row.counted = true
  refreshed : ∀ id msg, Did.record d ≠ ⟨.refresh id, .error msg⟩
  reconciled : ∀ id version hashes n, Did.record d = ⟨.reconcileTx id version hashes, .ok n⟩ →
    ∀ index row, d.before.chunkOf id index = some row → row.counted = true →
      index < hashes.length ∧ ∀ sha256, (index, sha256) ∈ hashes → sha256 = row.sha256
  completed : ∀ id totalBytes sourcePeerId hashes,
    Did.record d = ⟨.completeTx id totalBytes sourcePeerId hashes, .ok ()⟩ →
    ∀ row, d.before.get id = some row → row.bytesWith totalBytes hashes =
      if row.state.climbs then totalBytes else row.countedBytes

lemma sameBytes_setReceived {d : Download} {index : ℕ}
    (hc : ∀ row, d.chunks.get index = some row → row.counted = true) :
    SameBytes d (d.updateChunk index fun row =>
      if row.state ≠ .verified then { row with state := .received } else row) := by
  unfold Download.updateChunk
  split
  · exact .of_chunks rfl rfl
  · rename_i row hrow
    refine ⟨rfl, Download.countedBytes_of_insert rfl hrow ?_⟩
    have hcounted := hc row hrow
    dsimp only
    split
    · rw [ChunkRow.weight, ChunkRow.weight, hcounted]
      rfl
    · rfl

lemma sameBytes_resetInFlight (d : Download) : SameBytes d d.resetInFlight := by
  refine ⟨rfl, Download.countedBytes_of_map (g := fun _ row =>
    if row.state = .inFlight then { row with state := .pending } else row) rfl
    fun index row _ => ?_⟩
  split
  · rename_i hs
    rw [ChunkRow.weight_of_not_counted rfl, ChunkRow.weight_of_not_counted]
    rw [ChunkRow.counted, hs]
    rfl
  · rfl

/-- A completion that is told the bytes of its chunks. -/
lemma settled_complete {now : ℤ} {id : String} {totalBytes : ℕ} {sourcePeerId : Option String}
    {hashes : List (ℕ × String)} {d : Download} (hd : d.settled)
    (hbytes : d.bytesWith totalBytes hashes =
      if d.state.climbs then totalBytes else d.countedBytes) :
    (((Effect.completeTx id totalBytes sourcePeerId hashes).edits now).foldl
      (fun d f => f d) d).settled := by
  rw [Effect.edits, List.foldl_append]
  obtain ⟨hchunks, hcolumn⟩ := ladder_spec now totalBytes sourcePeerId d
  revert hchunks hcolumn
  generalize List.foldl (fun (d : Download) (f : Download → Download) => f d) d _ = d₁
  intro hchunks hcolumn
  rw [List.foldl_map, Download.settled, Download.countedBytes_upserts,
    Download.bytesWith_of_chunks hchunks, hbytes]
  have hupserts : ∀ d : Download, (hashes.foldl
      (fun d chunk => d.upsertVerified totalBytes chunk) d).transferredBytes =
        d.transferredBytes := by
    intro d
    refine List.foldlRecOn (motive := fun d' : Download =>
      d'.transferredBytes = d.transferredBytes) _ _ rfl fun d' hd' chunk _ => ?_
    rw [← hd']
    unfold Download.upsertVerified
    dsimp only
    split <;> rfl
  rw [hupserts, hcolumn]
  split
  · rfl
  · exact hd

lemma settled_after {d : StoreStep} (hh : storeSystem.Handled d) (hg : SumKept d) {id : String}
    (hs : Settled id d.before) :
    Settled id d.after ∨ ∃ index, Did.record d = ⟨.setVerified id index, .ok ()⟩ := by
  rcases after_get hh id with heq | ⟨rfl, hr, start, hafter, hstart⟩
  · exact .inl fun row hrow => hs row (heq ▸ hrow)
  obtain ⟨op, e, inp, resp, before, after⟩ := d
  obtain rfl : resp = .ok (e.answer before) := hr
  by_cases hv : ∃ index, e = .setVerified e.subject index
  · obtain ⟨index, he⟩ := hv
    cases e with
    | setVerified id j => exact .inr ⟨j, rfl⟩
    | _ => cases he
  refine .inl fun row' hrow' => ?_
  rw [hafter] at hrow'
  obtain ⟨row, rfl, rfl⟩ := Option.map_eq_some_iff.1 hrow'
  have hold : row.settled := by
    rcases hstart with hstart | ⟨-, new, chunks, -, hstart⟩
    · exact hs row hstart.symm
    · obtain rfl := Option.some.inj hstart
      rfl
  have hget (hc : ∀ new chunks, e ≠ .createTx new chunks) : before.get e.subject = some row := by
    rcases hstart with hstart | ⟨-, new, chunks, he, -⟩
    · exact hstart.symm
    · exact absurd he (hc new chunks)
  have hrows (hc : ∀ new chunks, e ≠ .createTx new chunks) (index : ℕ) :
      before.chunkOf e.subject index = row.chunks.get index := by
    rw [Db.chunkOf, hget hc]
    rfl
  cases e with
  | selectState | selectVersion | countChunks | selectChunk => exact hold
  | setState | setFailed | setVersion | setLastError | setSourcePeer => exact hold
  | setVerified id index => exact absurd ⟨index, rfl⟩ hv
  | setReceived id index =>
    refine (sameBytes_setReceived fun chunk hchunk => ?_).settled hold
    exact hg.received id index rfl chunk ((hrows (by simp) index).trans hchunk)
  | resetInFlight id => exact (sameBytes_resetInFlight row).settled hold
  | refresh id => exact rfl
  | createTx new chunks =>
    refine SameBytes.settled ?_ hold
    refine List.foldlRecOn (motive := fun row' => SameBytes row row') _ _ (.of_chunks rfl rfl)
      fun row' hrow' f hf => ?_
    obtain ⟨chunk, -, rfl⟩ := List.mem_map.1 hf
    exact hrow'.trans (.insertChunk rfl)
  | reconcileTx id version hashes =>
    refine SameBytes.settled ?_ hold
    rw [Effect.edits, List.cons_append, List.foldl_cons, List.foldl_append]
    have hversion : SameBytes row { row with manifestVersion := version } := .of_chunks rfl rfl
    refine hversion.trans (sameBytes_reconcile fun index chunk hchunk hc => ?_)
    exact hg.reconciled id version hashes _ rfl index chunk
      ((hrows (by simp) index).trans hchunk) hc
  | completeTx id totalBytes sourcePeerId hashes =>
    exact settled_complete hold (hg.completed id totalBytes sourcePeerId hashes rfl row
      (hget (by simp)))

lemma settled_of_refresh {d : StoreStep} (hh : storeSystem.Handled d) {id : String}
    (hrec : Did.record d = ⟨.refresh id, .ok ()⟩) : Settled id d.after := by
  obtain ⟨op, e, inp, resp, before, after⟩ := d
  cases hrec
  rcases handled_cases hh with ⟨msg, hr, -⟩ | ⟨-, ha⟩
  · cases hr
  obtain rfl : after = before.update id Download.refresh := ha
  intro row' hrow'
  rw [Db.get_update, if_pos rfl] at hrow'
  obtain ⟨row, -, rfl⟩ := Option.map_eq_some_iff.1 hrow'
  rfl

/-! ### Runs -/

/-- What the chunk rows are worth. -/
structure ChunkIntegrity (h : List StoreStep) (p : Calls) : Prop where
  backed : ∀ id index row, p.state.chunkOf id index = some row → row.state = .verified →
    Backed h id index row.sha256
  summed : ∀ id, (∀ t ∈ p.tasks, owed t.done ≠ some id) → Settled id p.state

/-- Both conditions on a step. -/
def Careful (_ : List StoreStep) (d : StoreStep) : Prop := HashesStand d ∧ SumKept d

variable {h : List StoreStep} {p : Calls}

/-- The column is the sum, or a call has yet to refresh it. -/
lemma settled_of_run (r : storeSystem.Run Careful ∅ h p) (id : String) :
    Settled id p.state ∨ ∃ t ∈ p.tasks, owed t.done = some id := by
  have hinv : Settled id p.state ∨ ∃ g ∈ p.tasks.map Task.done, owed g = some id := by
    refine r.past_invariant program_spec (fun _ _ => trivial)
      (fun _ s gs => Settled id s ∨ ∃ g ∈ gs, owed g = some id)
      (.inl fun d hd => by cases hd) (fun h s gs hI => ?_) ?_
    · exact hI.imp_right fun ⟨g, hg, ho⟩ => ⟨g, List.mem_append_left _ hg, ho⟩
    intro h gs i g d hI hgi hmay hh hguard
    have hi : i < gs.length := (List.getElem?_eq_some_iff.1 hgi).1
    rcases hI with hs | ⟨g₀, hg₀, ho⟩
    · rcases settled_after hh hguard.2 hs with hs' | ⟨index, hrec⟩
      · exact .inl hs'
      · refine .inr ⟨g ++ [Did.record d], List.mem_set hi _, ?_⟩
        rw [owed_concat, hrec]
        rfl
    · obtain ⟨j, hj⟩ := List.getElem?_of_mem hg₀
      by_cases hji : j = i
      · -- the call that owes the refresh makes it
        subst hji
        obtain rfl := Option.some.inj (hgi.symm.trans hj)
        have he := hmay.1 id ho
        refine .inl (settled_of_refresh hh ?_)
        have hnot := hguard.2.refreshed id
        obtain ⟨op, e, inp, resp, before, after⟩ := d
        subst he
        cases (resp : Except String Unit) with
        | error msg => exact absurd rfl (hnot msg)
        | ok a => rfl
      · refine .inr ⟨g₀, List.mem_of_getElem? (i := j) ?_, ho⟩
        rw [List.getElem?_set_ne (Ne.symm hji)]
        exact hj
  refine hinv.imp_right fun ⟨g, hg, ho⟩ => ?_
  obtain ⟨t, ht, rfl⟩ := List.mem_map.1 hg
  exact ⟨t, ht, ho⟩

/-- **The chunk rows are sound.**  In every run of the store from an empty database whose steps meet
both conditions, a verified row was verified against the hash that it has declared ever since, and
`transferred_bytes` is the sum of the rows that count whenever no call stands between marking a
chunk verified and its refresh. -/
theorem chunk_rows_sound (r : storeSystem.Run Careful ∅ h p) : ChunkIntegrity h p where
  backed _ _ _ hget hv := backed_of_run (fun _ _ hc => hc.1) r hget hv
  summed id hnone := (settled_of_run r id).resolve_right fun ⟨t, ht, ho⟩ => hnone t ht ho

/-! ### Short runs -/

namespace OneChunk

def new : NewDownload where
  downloadId := "download"
  mediaId := "media"
  roomId := none
  userId := "user"
  totalBytes := 7
  sourcePeerId := "aaaaaaaaaaaaaaaaaaaaaaaaaaaaaaaaaaaaaaaaaaaaaaaaaaaaaaaaaaaaaaaa"
  chunkSizeBytes := chunkSizeBytes
  manifestVersion := 1

def inp : Effect.Input := { fails := none, now := 0 }

/-- A download of one chunk is created as the call 0. -/
def created : List (Move Op Effect.Input) :=
  [.spawn (.create new [(0, 0, 7, "old")]), .advance 0 inp]

/-- A download of two chunks, which two calls verify, statement by statement in turn. -/
def inTurn : List (Move Op Effect.Input) :=
  [.spawn (.create { new with totalBytes := chunkSizeBytes + 7 }
      [(0, 0, chunkSizeBytes, "old"), (1, chunkSizeBytes, 7, "other")]), .advance 0 inp,
    .spawn (.markChunkVerified "download" 0 "old"),
      .spawn (.markChunkVerified "download" 1 "other"),
    .advance 1 inp, .advance 2 inp, .advance 1 inp, .advance 2 inp, .advance 1 inp, .advance 2 inp,
    .advance 1 inp, .advance 2 inp]

/-- The manifest is republished between the check of the hash and the `UPDATE`. -/
def republished : List (Move Op Effect.Input) :=
  created ++ [.spawn (.markChunkVerified "download" 0 "old"), .advance 1 inp, .advance 1 inp,
    .spawn (.reconcileManifestVersion "download" 2 [(0, "new")]), .advance 2 inp, .advance 2 inp,
    .advance 1 inp, .advance 1 inp]

/-- The chunk is marked received. -/
def received : List (Move Op Effect.Input) :=
  created ++ [.spawn (.markChunkReceived "download" 0), .advance 1 inp, .advance 1 inp]

/-- The chunk's row is verified with this hash. -/
def verifiedAs (sha256 : String) (db : Db) : Bool :=
  (db.chunkOf "download" 0).any fun row => row.state == .verified && row.sha256 == sha256

/-- No step verifies the chunk against this hash. -/
def unverified (sha256 : String) (h : List StoreStep) : Bool :=
  h.all fun d => d.op != .markChunkVerified "download" 0 sha256 &&
    match d.effect with
    | .completeTx .. => false
    | _ => true

/-- The row is verified against a hash that nothing was verified against. -/
def stale (sha256 : String) (out : List StoreStep × Calls) : Bool :=
  verifiedAs sha256 out.2.state && unverified sha256 out.1

lemma not_integrity_of_stale {h : List StoreStep} {p : Calls} {sha256 : String}
    (hs : stale sha256 (h, p) = true) : ¬ChunkIntegrity h p := by
  intro hc
  simp only [stale, Bool.and_eq_true, verifiedAs, unverified, List.all_eq_true] at hs
  obtain ⟨hrow, hall⟩ := hs
  obtain ⟨row, hget, hrow⟩ := (Option.any_eq_true _ _).1 hrow
  simp only [Bool.and_eq_true, beq_iff_eq] at hrow
  obtain ⟨pre, d, post, rfl, hrec, -⟩ := hc.backed _ _ row hget hrow.1
  have hd := hall d (by simp)
  rw [hrow.2] at hrec
  rcases hrec with ⟨hop, -⟩ | ⟨totalBytes, sourcePeerId, hashes, hrec, -⟩
  · simp [hop] at hd
  · have he : d.effect = .completeTx "download" totalBytes sourcePeerId hashes :=
      congrArg Sigma.fst hrec
    simp [he] at hd

/-- Every call has ended, and the column is not the sum. -/
def unsummed (out : List StoreStep × Calls) : Bool :=
  out.2.tasks.all (fun t => t.result.isSome && (owed t.done).isNone) &&
    (out.2.state.get "download").any fun d => d.transferredBytes != d.countedBytes

lemma not_integrity_of_unsummed {h : List StoreStep} {p : Calls}
    (hs : unsummed (h, p) = true) : ¬ChunkIntegrity h p := by
  intro hc
  simp only [unsummed, Bool.and_eq_true, List.all_eq_true] at hs
  obtain ⟨hall, hsum⟩ := hs
  obtain ⟨d, hget, hsum⟩ := (Option.any_eq_true _ _).1 hsum
  have hnone : ∀ t ∈ p.tasks, owed t.done ≠ some "download" := fun t ht ho => by
    have := (hall t ht).2
    rw [ho] at this
    cases this
  have hsettled : d.settled := hc.summed "download" hnone d hget
  simp only [bne_iff_ne, ne_eq] at hsum
  exact hsum hsettled

/-- The step is a plain one, or marks a chunk verified whose row declares the hash. -/
def plainlyCareful (d : StoreStep) : Bool :=
  match d.op, (Did.record d : Record) with
  | .markChunkVerified _ _ sha256, ⟨.setVerified id index, _⟩ =>
    (d.before.chunkOf id index).all fun row => row.sha256 == sha256
  | _, ⟨.refresh _, (.error _ : Except String Unit)⟩ => false
  | _, ⟨.setReceived .., _⟩ => false
  | _, ⟨.reconcileTx .., _⟩ => false
  | _, ⟨.completeTx .., _⟩ => false
  | _, _ => true

lemma careful_of_plainlyCareful {h : List StoreStep} {d : StoreStep}
    (hc : plainlyCareful d = true) : Careful h d := by
  obtain ⟨op, e, inp, resp, before, after⟩ := d
  refine ⟨⟨fun id index sha256 hop hrec row hrow => ?_, fun _ _ _ _ hrec => ?_⟩,
    fun _ _ hrec => ?_, fun _ _ hrec => ?_, fun _ _ _ _ hrec => ?_, fun _ _ _ _ hrec => ?_⟩
  · cases hop
    cases hrec
    have hsha : (before.chunkOf id index).all (fun row => row.sha256 == sha256) = true := hc
    simpa [hrow] using hsha
  all_goals
    cases hrec
    cases op <;> cases hc

/-- A chunk is verified against a hash that was never checked, and a download's column is not the
sum though no call is in progress. -/
theorem chunk_rows_unsound :
    (∃ h p, storeSystem.Run (fun _ _ => True) ∅ h p ∧ ¬ChunkIntegrity h p ∧
      verifiedAs "new" p.state = true) ∧
    ∃ h p, storeSystem.Run (fun _ _ => True) ∅ h p ∧ ¬ChunkIntegrity h p ∧ p.quiet := by
  constructor
  · have hrun : ∃ h p, storeSystem.Run (fun _ _ => True) ∅ h p ∧ stale "new" (h, p) = true :=
      System.exists_run_of_play republished (fun _ _ => true) _ (fun _ _ _ => trivial)
        (by decide)
    obtain ⟨h, p, r, hs⟩ := hrun
    exact ⟨h, p, r, not_integrity_of_stale hs, (Bool.and_eq_true_iff.1 hs).1⟩
  · have hrun : ∃ h p, storeSystem.Run (fun _ _ => True) ∅ h p ∧ unsummed (h, p) = true :=
      System.exists_run_of_play received (fun _ _ => true) _ (fun _ _ _ => trivial)
        (by decide)
    obtain ⟨h, p, r, hs⟩ := hrun
    refine ⟨h, p, r, not_integrity_of_unsummed hs, fun t ht => ?_⟩
    simp only [unsummed, Bool.and_eq_true, List.all_eq_true] at hs
    exact (hs.1 t ht).1

/-- Both chunks are counted. -/
def counted (db : Db) : Bool :=
  verifiedAs "old" db && (db.get "download").any fun d => d.transferredBytes == chunkSizeBytes + 7

/-- Two chunks are verified at once, and counted. -/
theorem chunk_rows_sound_inTurn : ∃ h p, storeSystem.Run Careful ∅ h p ∧
    counted p.state = true ∧ ChunkIntegrity h p := by
  have hrun : ∃ h p, storeSystem.Run Careful ∅ h p ∧ counted p.state = true :=
    System.exists_run_of_play inTurn (fun _ => plainlyCareful)
      (fun out => counted out.2.state) (fun _ _ => careful_of_plainlyCareful)
      (by decide)
  obtain ⟨h, p, r, hs⟩ := hrun
  exact ⟨h, p, r, hs, chunk_rows_sound r⟩

end OneChunk

end Locast.Transfer
