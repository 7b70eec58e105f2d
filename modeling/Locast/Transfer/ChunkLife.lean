import Locast.Transfer.StoreSpec

/-!
# The life of a chunk's row

The operations of the store work on whole tables: they loop over the chunks of a manifest, cut what
is beyond it and mark rows one at a time.  Seen from one chunk the store is a machine with a single
row, whatever the rest of the database holds.  What a republish leaves of a resumed download is read
off that machine.
-/

namespace Locast.Transfer

open Locast.Lib
open Locast.Lib.System (Did.record Handled)

/-! ### One row -/

namespace ChunkRow

/-- `create` lists the chunk. -/
def inserted (new : ℕ × ℕ × String) (row : Option ChunkRow) : ChunkRow :=
  row.getD ⟨new.1, new.2.1, new.2.2, .pending⟩

/-- `reconcile_manifest_version` lists the chunk. -/
def relisted (index : ℕ) (sha256 : String) : Option ChunkRow → ChunkRow
  | none => ⟨index * chunkSizeBytes, chunkSizeBytes, sha256, .pending⟩
  | some row =>
    if row.sha256 ≠ sha256 then { row with sha256 := sha256, state := .pending } else row

/-- `mark_complete` lists the chunk. -/
def completed (index totalBytes : ℕ) (sha256 : String) : Option ChunkRow → ChunkRow
  | none =>
    ⟨index * chunkSizeBytes, max (min chunkSizeBytes (totalBytes - index * chunkSizeBytes)) 1,
      sha256, .verified⟩
  | some row => { row with state := .verified }

/-- The new manifest has `total` chunks. -/
def cut (index total : ℕ) (row : ChunkRow) : ChunkRow :=
  if total ≤ index then { row with state := .failed } else row

end ChunkRow

/-- A loop over listed chunks, as the row of one of them sees it. -/
def rowLoop {β : Type} (index : ℕ) (f : β → Option ChunkRow → ChunkRow) (entries : List (ℕ × β))
    (row : Option ChunkRow) : Option ChunkRow :=
  (entries.filter fun entry => entry.1 == index).foldl (fun row entry => some (f entry.2 row)) row

/-- What an effect on its download does to the row of a chunk. -/
def Effect.onRow (index : ℕ) : Effect → Option ChunkRow → Option ChunkRow
  | .setVerified _ i, row =>
    if index = i then row.map fun row => { row with state := .verified } else row
  | .setReceived _ i, row =>
    if index = i then
      row.map fun row => if row.state ≠ .verified then { row with state := .received } else row
    else row
  | .resetInFlight _, row =>
    row.map fun row => if row.state = .inFlight then { row with state := .pending } else row
  | .createTx _ chunks, row => rowLoop index ChunkRow.inserted chunks row
  | .reconcileTx _ _ hashes, row =>
    (rowLoop index (ChunkRow.relisted index) hashes row).map (.cut index hashes.length)
  | .completeTx _ totalBytes _ hashes, row => rowLoop index (.completed index totalBytes) hashes row
  | _, row => row

/-- What a step does to the row of a chunk: nothing when it fails, is about another download or
finds no row of the download. -/
def StoreStep.onRow (d : StoreStep) (id : String) (index : ℕ) (row : Option ChunkRow) :
    Option ChunkRow :=
  match (d.resp : Except String d.effect.Answer) with
  | .error _ => row
  | .ok _ =>
    if id = d.effect.subject ∧ (d.after.get id).isSome then d.effect.onRow index row else row

/-- The row after some steps. -/
def rowAfter (db₀ : Db) (id : String) (index : ℕ) (h : List StoreStep) : Option ChunkRow :=
  h.foldl (fun row d => d.onRow id index row) (db₀.chunkOf id index)

/-! ### The statements, seen from one row -/

namespace Download

variable {d : Download} {index i : ℕ}

lemma get_updateChunk (f : ChunkRow → ChunkRow) : (d.updateChunk i f).chunks.get index =
    if index = i then (d.chunks.get index).map f else d.chunks.get index := by
  unfold updateChunk
  split
  · rename_i h
    split
    · rename_i heq
      rw [heq, h, Option.map_none]
    · rfl
  · rename_i row h
    rw [AList.get_insert]
    split
    · rename_i heq
      rw [heq, h, Option.map_some]
    · rfl

lemma get_insertChunk (new : ℕ × ℕ × String) :
    (d.insertChunk i ⟨new.1, new.2.1, new.2.2, .pending⟩).chunks.get index =
      if index = i then some (ChunkRow.inserted new (d.chunks.get index))
        else d.chunks.get index := by
  unfold insertChunk
  split
  · rename_i h
    rw [AList.get_insert]
    split
    · rename_i heq
      rw [heq, h]
      rfl
    · rfl
  · rename_i row h
    split
    · rename_i heq
      rw [heq, h]
      rfl
    · rfl

lemma get_reconcileChunk (chunk : ℕ × String) : (d.reconcileChunk chunk).chunks.get index =
    if index = chunk.1 then some (ChunkRow.relisted index chunk.2 (d.chunks.get index))
    else d.chunks.get index := by
  by_cases heq : index = chunk.1
  · subst heq
    rw [if_pos rfl]
    unfold reconcileChunk ChunkRow.relisted
    cases h : d.chunks.get chunk.1 with
    | none => simp [insertChunk, h]
    | some row =>
      dsimp only
      split
      · exact AList.get_insert_self _ _ _
      · exact h
  · rw [if_neg heq]
    unfold reconcileChunk insertChunk
    cases d.chunks.get chunk.1 with
    | none => simp [AList.get_insert, heq]
    | some row =>
      dsimp only
      split
      · simp [AList.get_insert, heq]
      · rfl

lemma get_upsertVerified (totalBytes : ℕ) (chunk : ℕ × String) :
    (d.upsertVerified totalBytes chunk).chunks.get index =
      if index = chunk.1 then some
        (ChunkRow.completed index totalBytes chunk.2 (d.chunks.get index))
      else d.chunks.get index := by
  unfold upsertVerified ChunkRow.completed
  by_cases heq : index = chunk.1
  · subst heq
    cases h : d.chunks.get chunk.1 <;> simp
  · cases h : d.chunks.get chunk.1 <;> simp [AList.get_insert, heq]

/-- **A loop over listed chunks**, each of which changes its own row only. -/
lemma get_rowLoop {β : Type} {edit : ℕ × β → Download → Download}
    {f : β → Option ChunkRow → ChunkRow} (hf : ∀ entry d, (edit entry d).chunks.get index =
      if index = entry.1 then some (f entry.2 (d.chunks.get index)) else d.chunks.get index)
    (entries : List (ℕ × β)) (d : Download) :
    ((entries.map edit).foldl (fun d g => g d) d).chunks.get index =
      rowLoop index f entries (d.chunks.get index) := by
  induction entries generalizing d with
  | nil => rfl
  | cons entry entries ih =>
    rw [List.map_cons, List.foldl_cons, ih, hf, rowLoop, rowLoop, List.filter_cons]
    by_cases heq : index = entry.1
    · simp [heq]
    · simp [heq, Ne.symm heq]

end Download

/-- The statements of an effect, seen from one row. -/
lemma get_edits (e : Effect) (now : ℤ) (index : ℕ) (d : Download) :
    ((e.edits now).foldl (fun d f => f d) d).chunks.get index =
      e.onRow index (d.chunks.get index) := by
  cases e with
  | selectState | selectVersion | countChunks | selectChunk => rfl
  | setState | setFailed | setVersion | setLastError | setSourcePeer | refresh => rfl
  | setVerified => exact Download.get_updateChunk _
  | setReceived => exact Download.get_updateChunk _
  | resetInFlight => exact AList.get_mapVals _ _ _
  | createTx new chunks =>
    exact Download.get_rowLoop (fun entry d => Download.get_insertChunk entry.2) _ _
  | reconcileTx id version hashes =>
    rw [Effect.edits, List.foldl_append, List.foldl_cons]
    refine (AList.get_mapKeyed _ _ _).trans ?_
    rw [List.foldl_cons, Download.get_rowLoop fun entry d => Download.get_reconcileChunk entry]
    rfl
  | completeTx id totalBytes sourcePeerId hashes =>
    rw [Effect.edits, List.foldl_append,
      Download.get_rowLoop fun entry d => Download.get_upsertVerified totalBytes entry]
    have ladder : ((([Download.raise .pending .connecting, Download.raise .connecting .transferring,
        Download.raise .transferring .verifying, Download.finish now totalBytes sourcePeerId] :
        List (Download → Download)).foldl (fun d f => f d) d).chunks) = d.chunks := by
      have raised (current target : DownloadState) (d : Download) :
          (d.raise current target).chunks = d.chunks := by
        unfold Download.raise
        split <;> rfl
      have finished (d : Download) : (d.finish now totalBytes sourcePeerId).chunks = d.chunks := by
        unfold Download.finish
        split <;> rfl
      simp only [List.foldl_cons, List.foldl_nil, finished, raised]
    rw [ladder]
    rfl

/-- What an effect does to a download that is there. -/
lemma get_statements (e : Effect) (now : ℤ) {db : Db} {id : String} (hd : (db.get id).isSome) :
    ((e.statements now db).foldl (fun db f => f db) db).get id =
      if id = e.subject then (db.get id).map fun d => (e.edits now).foldl (fun d f => f d) d
      else db.get id := by
  cases e with
  | createTx new chunks =>
    by_cases heq : id = (Effect.createTx new chunks).subject
    · obtain rfl : id = new.downloadId := heq
      have hkept : db.admitsNew new = true := by simp [Db.admitsNew, hd]
      have hsame : Effect.insertDownload now new db = db := by simp [Effect.insertDownload, hd]
      rw [Effect.statements, if_pos hkept, List.foldl_cons, hsame]
      exact get_foldl_update _ _
    · rw [if_neg heq, Effect.statements]
      split
      · rw [List.foldl_cons, get_foldl_update, if_neg heq]
        exact get_insertDownload_of_ne heq
      · rfl
  | _ =>
    refine (get_foldl_update _ _).trans ?_
    split
    · rename_i heq
      rw [heq]
    · rfl

/-- **One step of the store, seen from one row.** -/
lemma chunkOf_step {d : StoreStep} (hh : storeSystem.Handled d) (id : String) (index : ℕ) :
    d.after.chunkOf id index = d.onRow id index (d.before.chunkOf id index) := by
  cases hbefore : d.before.get id with
  | some row =>
    unfold StoreStep.onRow
    have hget := get_statements d.effect d.inp.now (Option.isSome_iff_exists.2 ⟨row, hbefore⟩)
    rcases handled_cases hh with ⟨msg, hr, ha⟩ | ⟨hr, ha⟩
    · rw [hr, ha]
    · rw [← ha, hbefore] at hget
      rw [hr, Db.chunkOf, Db.chunkOf, hget, hbefore]
      dsimp only
      split
      · rename_i heq
        rw [if_pos ⟨heq, rfl⟩]
        exact get_edits _ _ _ _
      · rename_i hne
        rw [if_neg fun h => hne h.1]
  | none =>
    have hnone : d.before.chunkOf id index = none := by rw [Db.chunkOf, hbefore]; rfl
    rw [hnone]
    unfold StoreStep.onRow
    have absent (h : d.after.get id = none) : d.after.chunkOf id index = none ∧
        ¬(id = d.effect.subject ∧ (d.after.get id).isSome) := by
      rw [Db.chunkOf, h]
      exact ⟨rfl, fun h => by cases h.2⟩
    rcases after_get hh id with h | ⟨heq, hr, start, hafter, h | ⟨-, new, chunks, he, hstart⟩⟩
    · obtain ⟨hrow, hno⟩ := absent (h.trans hbefore)
      rw [hrow]
      split
      · rfl
      · rw [if_neg hno]
    · obtain ⟨hrow, hno⟩ := absent (by rw [hafter, h, hbefore]; rfl)
      rw [hrow]
      split
      · rfl
      · rw [if_neg hno]
    · -- the download is created
      rw [hr, Db.chunkOf, hafter, hstart]
      dsimp only [Option.map_some, Option.bind_some]
      rw [if_pos ⟨heq, rfl⟩, get_edits]
      rfl

/-! ### What becomes of a row -/

section RowLoop

variable {β : Type} {index : ℕ} {f : β → Option ChunkRow → ChunkRow} {entries : List (ℕ × β)}

lemma rowLoop_cons_self (b : β) (row : Option ChunkRow) :
    rowLoop index f ((index, b) :: entries) row = rowLoop index f entries (some (f b row)) := by
  simp [rowLoop]

lemma rowLoop_cons_of_ne {entry : ℕ × β} (hne : entry.1 ≠ index) (row : Option ChunkRow) :
    rowLoop index f (entry :: entries) row = rowLoop index f entries row := by
  simp [rowLoop, hne]

/-- A loop that changes a row as `R` allows. -/
lemma rowLoop_some {R : ChunkRow → ChunkRow → Prop} (hrefl : ∀ row, R row row)
    (htrans : ∀ row row' row'', R row row' → R row' row'' → R row row'')
    (hf : ∀ b row, R row (f b (some row))) (entries : List (ℕ × β)) (row : ChunkRow) :
    ∃ row', rowLoop index f entries (some row) = some row' ∧ R row row' := by
  induction entries generalizing row with
  | nil => exact ⟨row, rfl, hrefl row⟩
  | cons entry entries ih =>
    obtain ⟨i, b⟩ := entry
    by_cases heq : i = index
    · subst heq
      obtain ⟨row', hrow', hR⟩ := ih (f b (some row))
      exact ⟨row', (rowLoop_cons_self b _).trans hrow', htrans _ _ _ (hf b row) hR⟩
    · obtain ⟨row', hrow', hR⟩ := ih row
      exact ⟨row', (rowLoop_cons_of_ne heq _).trans hrow', hR⟩

/-- A loop that verifies no row. -/
lemma rowLoop_verified
    (hf : ∀ b row, (f b row).state = .verified → row = some (f b row)) {row : Option ChunkRow}
    {row' : ChunkRow} (h : rowLoop index f entries row = some row') (hv : row'.state = .verified) :
    row = some row' := by
  induction entries generalizing row with
  | nil => exact h
  | cons entry entries ih =>
    obtain ⟨i, b⟩ := entry
    by_cases heq : i = index
    · subst heq
      have hlast : f b row = row' := Option.some.inj (ih ((rowLoop_cons_self b _).symm.trans h))
      exact (hf b row (hlast ▸ hv)).trans (congrArg some hlast)
    · exact ih ((rowLoop_cons_of_ne heq _).symm.trans h)

end RowLoop

lemma relisted_verified (index : ℕ) (sha256 : String) (row : Option ChunkRow)
    (hv : (ChunkRow.relisted index sha256 row).state = .verified) :
    row = some (ChunkRow.relisted index sha256 row) := by
  cases row with
  | none => cases hv
  | some row =>
    simp only [ChunkRow.relisted] at hv ⊢
    split at hv
    · cases hv
    · rename_i hsame
      rw [if_neg hsame]

/-- **The loop of a republish**: a row that every listing agrees with is left alone, any other takes
a listed hash and is pending. -/
lemma rowLoop_relisted (index : ℕ) (hashes : List (ℕ × String)) (row : ChunkRow) :
    ((∀ entry ∈ hashes, entry.1 = index → entry.2 = row.sha256) ∧
      rowLoop index (.relisted index) hashes (some row) = some row) ∨
    (∃ entry ∈ hashes, entry.1 = index ∧ entry.2 ≠ row.sha256) ∧
      ∃ sha256, (index, sha256) ∈ hashes ∧ rowLoop index (.relisted index) hashes (some row) =
        some { row with sha256 := sha256, state := .pending } := by
  induction hashes generalizing row with
  | nil => exact .inl ⟨fun entry he => absurd he List.not_mem_nil, rfl⟩
  | cons entry hashes ih =>
    obtain ⟨i, sha256⟩ := entry
    by_cases hchanged : i = index ∧ row.sha256 ≠ sha256
    · -- the row is reset, and stays pending whatever else is listed
      obtain ⟨rfl, hne⟩ := hchanged
      have hreset : ChunkRow.relisted i sha256 (some row) =
          { row with sha256 := sha256, state := .pending } := if_pos hne
      rw [rowLoop_cons_self, hreset]
      refine .inr ⟨⟨(i, sha256), List.mem_cons_self, rfl, hne.symm⟩, ?_⟩
      rcases ih { row with sha256 := sha256, state := .pending } with
        ⟨-, hrow⟩ | ⟨-, other, hmem, hrow⟩
      · exact ⟨sha256, List.mem_cons_self, hrow⟩
      · exact ⟨other, List.mem_cons_of_mem _ hmem, hrow⟩
    · have hskip : rowLoop index (.relisted index) ((i, sha256) :: hashes) (some row) =
          rowLoop index (.relisted index) hashes (some row) := by
        by_cases heq : i = index
        · subst heq
          have hkept : ChunkRow.relisted i sha256 (some row) = row :=
            if_neg fun hne => hchanged ⟨rfl, hne⟩
          rw [rowLoop_cons_self, hkept]
        · exact rowLoop_cons_of_ne heq _
      rw [hskip]
      rcases ih row with ⟨hall, hrow⟩ | ⟨⟨entry, he, hother⟩, other, hmem, hrow⟩
      · refine .inl ⟨fun entry he hi => ?_, hrow⟩
        rcases List.mem_cons.1 he with rfl | he
        · exact (not_not.1 fun hne => hchanged ⟨hi, hne⟩).symm
        · exact hall entry he hi
      · exact .inr ⟨⟨entry, List.mem_cons_of_mem _ he, hother⟩, other,
          List.mem_cons_of_mem _ hmem, hrow⟩

/-- The place of a row. -/
def ChunkRow.SamePlace (row row' : ChunkRow) : Prop :=
  row'.offset = row.offset ∧ row'.length = row.length

/-- A row is never taken away, and stays in its place. -/
lemma onRow_some (e : Effect) (index : ℕ) (row : ChunkRow) :
    ∃ row', e.onRow index (some row) = some row' ∧ row.SamePlace row' := by
  have hrefl (row : ChunkRow) : row.SamePlace row := ⟨rfl, rfl⟩
  have htrans (row row' row'' : ChunkRow) (h : row.SamePlace row') (h' : row'.SamePlace row'') :
      row.SamePlace row'' := ⟨h'.1.trans h.1, h'.2.trans h.2⟩
  cases e with
  | selectState | selectVersion | countChunks | selectChunk => exact ⟨row, rfl, hrefl row⟩
  | setState | setFailed | setVersion | setLastError | setSourcePeer | refresh =>
    exact ⟨row, rfl, hrefl row⟩
  | setVerified id i =>
    simp only [Effect.onRow]
    split
    · exact ⟨_, rfl, rfl, rfl⟩
    · exact ⟨row, rfl, hrefl row⟩
  | setReceived id i =>
    simp only [Effect.onRow, Option.map_some]
    split
    · split
      · exact ⟨_, rfl, rfl, rfl⟩
      · exact ⟨row, rfl, hrefl row⟩
    · exact ⟨row, rfl, hrefl row⟩
  | resetInFlight id =>
    simp only [Effect.onRow, Option.map_some]
    split
    · exact ⟨_, rfl, rfl, rfl⟩
    · exact ⟨row, rfl, hrefl row⟩
  | createTx new chunks => exact rowLoop_some hrefl htrans (fun _ row => hrefl row) _ _
  | completeTx id totalBytes sourcePeerId hashes =>
    exact rowLoop_some hrefl htrans (fun _ row => ⟨rfl, rfl⟩) _ _
  | reconcileTx id version hashes =>
    have hcut (row : ChunkRow) : row.SamePlace (row.cut index hashes.length) := by
      unfold ChunkRow.cut
      split
      · exact ⟨rfl, rfl⟩
      · exact hrefl row
    simp only [Effect.onRow]
    rcases rowLoop_relisted index hashes row with ⟨-, h⟩ | ⟨-, sha256, -, h⟩
    · rw [h]
      exact ⟨_, rfl, hcut row⟩
    · rw [h]
      exact ⟨_, rfl, htrans _ _ _ ⟨rfl, rfl⟩ (hcut _)⟩

/-- **What an effect leaves verified** it found so, unless it is one of the two that verify
chunks. -/
lemma verified_of_onRow {e : Effect} {index : ℕ} {row₀ : Option ChunkRow} {row : ChunkRow}
    (h : e.onRow index row₀ = some row) (hv : row.state = .verified) :
    (∃ id, e = .setVerified id index) ∨
      (∃ id totalBytes sourcePeerId hashes, e = .completeTx id totalBytes sourcePeerId hashes ∧
        index ∈ hashes.map Prod.fst) ∨
      row₀ = some row := by
  cases e with
  | selectState | selectVersion | countChunks | selectChunk => exact .inr (.inr h)
  | setState | setFailed | setVersion | setLastError | setSourcePeer | refresh =>
    exact .inr (.inr h)
  | setVerified id i =>
    simp only [Effect.onRow] at h
    split at h
    · rename_i heq
      exact .inl ⟨id, by rw [heq]⟩
    · exact .inr (.inr h)
  | setReceived id i =>
    refine .inr (.inr ?_)
    simp only [Effect.onRow] at h
    split at h
    · obtain ⟨old, rfl, hold⟩ := Option.map_eq_some_iff.1 h
      split at hold
      · subst hold
        cases hv
      · rw [hold]
    · exact h
  | resetInFlight id =>
    refine .inr (.inr ?_)
    obtain ⟨old, rfl, hold⟩ := Option.map_eq_some_iff.1 h
    split at hold
    · subst hold
      cases hv
    · rw [hold]
  | createTx new chunks =>
    refine .inr (.inr (rowLoop_verified (fun b row hrow => ?_) h hv))
    cases row with
    | none => cases hrow
    | some row => rfl
  | reconcileTx id version hashes =>
    obtain ⟨mid, hmid, hcut⟩ := Option.map_eq_some_iff.1 h
    unfold ChunkRow.cut at hcut
    split at hcut
    · subst hcut
      cases hv
    · subst hcut
      exact .inr (.inr (rowLoop_verified (relisted_verified index) hmid hv))
  | completeTx id totalBytes sourcePeerId hashes =>
    by_cases hmem : index ∈ hashes.map Prod.fst
    · exact .inr (.inl ⟨id, totalBytes, sourcePeerId, hashes, rfl, hmem⟩)
    · have hnone : (hashes.filter fun entry => entry.1 == index) = [] := by
        refine List.filter_eq_nil_iff.2 fun entry he heq => hmem (List.mem_map.2 ⟨entry, he, ?_⟩)
        simpa using heq
      exact .inr (.inr (by simpa [Effect.onRow, rowLoop, hnone] using h))

/-- A republish leaves a verified row verified exactly when its manifest has the chunk and agrees on
the hash. -/
lemma reconcileTx_verified {id : String} {version : ℤ} {index : ℕ} {hashes : List (ℕ × String)}
    {row : ChunkRow} (hv : row.state = .verified) :
    (Effect.reconcileTx id version hashes).onRow index (some row) = some row ↔
      index < hashes.length ∧ ∀ entry ∈ hashes, entry.1 = index → entry.2 = row.sha256 := by
  have hcut : row.cut index hashes.length = row ↔ index < hashes.length := by
    unfold ChunkRow.cut
    constructor
    · intro h
      refine Nat.lt_of_not_le fun hle => ?_
      rw [if_pos hle] at h
      rw [← h] at hv
      cases hv
    · intro hlt
      exact if_neg (Nat.not_le.2 hlt)
  simp only [Effect.onRow]
  rcases rowLoop_relisted index hashes row with
    ⟨hall, hkept⟩ | ⟨⟨entry, he, hi, hne⟩, sha256, -, hreset⟩
  · rw [hkept, Option.map_some, Option.some_inj, hcut]
    exact ⟨fun hlt => ⟨hlt, hall⟩, And.left⟩
  · rw [hreset, Option.map_some, Option.some_inj]
    constructor
    · intro h
      have hlost : (ChunkRow.cut index hashes.length { row with sha256, state := .pending }).state ≠
          .verified := by
        unfold ChunkRow.cut
        split <;> intro hstate <;> cases hstate
      rw [h] at hlost
      exact absurd hv hlost
    · rintro ⟨-, hall⟩
      exact absurd (hall entry he hi) hne

/-- Every effect but a republish leaves a verified row as it is. -/
lemma onRow_of_verified {e : Effect} {index : ℕ} {row : ChunkRow} (hv : row.state = .verified)
    (hrepublish : ∀ id version hashes, e ≠ .reconcileTx id version hashes) :
    e.onRow index (some row) = some row := by
  have hsame : ({ row with state := .verified } : ChunkRow) = row := by rw [← hv]
  cases e with
  | selectState | selectVersion | countChunks | selectChunk => rfl
  | setState | setFailed | setVersion | setLastError | setSourcePeer | refresh => rfl
  | setVerified id i => simp only [Effect.onRow, Option.map_some, hsame, ite_self]
  | setReceived id i => simp [Effect.onRow, hv]
  | resetInFlight id => simp [Effect.onRow, hv]
  | createTx new chunks =>
    obtain ⟨row', hrow', rfl⟩ : ∃ row', rowLoop index ChunkRow.inserted chunks (some row) =
        some row' ∧ row = row' :=
      rowLoop_some (fun _ => rfl) (fun _ _ _ h h' => h.trans h') (fun _ _ => rfl) chunks row
    exact hrow'
  | reconcileTx id version hashes => exact absurd rfl (hrepublish id version hashes)
  | completeTx id totalBytes sourcePeerId hashes =>
    obtain ⟨row', hrow', hsame'⟩ : ∃ row', rowLoop index (.completed index totalBytes) hashes
        (some row) = some row' ∧ (row.state = .verified → row' = row) :=
      rowLoop_some (R := fun row row' => row.state = .verified → row' = row) (fun _ _ => rfl)
        (fun _ _ _ h h' hs => (h' ((h hs).symm ▸ hs)).trans (h hs))
        (fun _ row hs => by simp only [ChunkRow.completed, ← hs]) hashes row
    rw [hsame' hv] at hrow'
    exact hrow'

namespace StoreStep

variable {d : StoreStep} {id : String} {index : ℕ} {row : ChunkRow}

/-- The step marks the chunk verified. -/
def Verifies (d : StoreStep) (id : String) (index : ℕ) : Prop :=
  Did.record d = ⟨.setVerified id index, .ok ()⟩ ∨
    ∃ totalBytes sourcePeerId hashes,
      Did.record d = ⟨.completeTx id totalBytes sourcePeerId hashes, .ok ()⟩ ∧
        index ∈ hashes.map Prod.fst

/-- Should the step be a republish of the download, its manifest has the chunk and agrees on the
hash. -/
def Agrees (d : StoreStep) (id : String) (index : ℕ) (sha256 : String) : Prop :=
  ∀ version hashes changed, Did.record d = ⟨.reconcileTx id version hashes, .ok changed⟩ →
    (d.after.get id).isSome →
      index < hashes.length ∧ ∀ entry ∈ hashes, entry.1 = index → entry.2 = sha256

/-- A step does nothing to the rows of a download, or what its effect does. -/
lemma onRow_cases (d : StoreStep) (id : String) (index : ℕ) :
    ((∀ row, d.onRow id index row = row) ∧ ∀ sha256, d.Agrees id index sha256) ∨
      ∃ e a, Did.record d = ⟨e, .ok a⟩ ∧ id = e.subject ∧ (d.after.get id).isSome ∧
        ∀ row, d.onRow id index row = e.onRow index row := by
  obtain ⟨op, e, inp, resp, before, after⟩ := d
  rcases resp with msg | a
  · exact .inl ⟨fun row => rfl, fun sha256 version hashes changed hrec => by cases hrec⟩
  by_cases hid : id = e.subject ∧ (after.get id).isSome
  · exact .inr ⟨e, a, rfl, hid.1, hid.2, fun row => if_pos hid⟩
  · refine .inl ⟨fun row => if_neg hid, fun sha256 version hashes changed hrec hpresent => ?_⟩
    obtain ⟨⟩ := hrec
    exact absurd ⟨rfl, hpresent⟩ hid

lemma onRow_some (d : StoreStep) (id : String) (index : ℕ) (row : ChunkRow) :
    ∃ row', d.onRow id index (some row) = some row' ∧ row.SamePlace row' := by
  rcases d.onRow_cases id index with ⟨hrow, -⟩ | ⟨e, a, -, -, -, hrow⟩
  · exact ⟨row, hrow _, rfl, rfl⟩
  · rw [hrow]
    exact Transfer.onRow_some e index row

/-- A step that verifies nothing leaves a verified row as it was, or not verified. -/
lemma of_onRow_verified {row₀ : Option ChunkRow} (h : d.onRow id index row₀ = some row)
    (hv : row.state = .verified) (hnot : ¬d.Verifies id index) :
    row₀ = some row ∧ d.Agrees id index row.sha256 := by
  rcases d.onRow_cases id index with ⟨hrow, hagrees⟩ | ⟨e, a, hrec, hid, -, hrow⟩
  · exact ⟨(hrow _).symm.trans h, hagrees _⟩
  rw [hrow] at h
  rcases verified_of_onRow h hv with ⟨_, rfl⟩ | ⟨_, total, peer, hashes, rfl, hmem⟩ | rfl
  · obtain rfl : id = _ := hid
    exact absurd (.inl hrec) hnot
  · obtain rfl : id = _ := hid
    exact absurd (.inr ⟨total, peer, hashes, hrec, hmem⟩) hnot
  · refine ⟨rfl, fun version hashes changed hrec' _ => ?_⟩
    obtain ⟨⟩ := hrec.symm.trans hrec'
    exact (reconcileTx_verified hv).1 h

/-- A verified row outlives every step that agrees with it. -/
lemma onRow_of_agrees (hv : row.state = .verified) (hagrees : d.Agrees id index row.sha256) :
    d.onRow id index (some row) = some row := by
  rcases d.onRow_cases id index with ⟨hrow, -⟩ | ⟨e, a, hrec, hid, hpresent, hrow⟩
  · exact hrow _
  rw [hrow]
  by_cases hrepublish : ∃ id version hashes, e = .reconcileTx id version hashes
  · obtain ⟨_, version, hashes, rfl⟩ := hrepublish
    obtain rfl : id = _ := hid
    exact (reconcileTx_verified hv).2 (hagrees version hashes a hrec hpresent)
  · refine onRow_of_verified hv fun id version hashes he => ?_
    exact hrepublish ⟨id, version, hashes, he⟩

end StoreStep

/-! ### Runs -/

/-- **The life of the chunk rows of a download**, over a history and the calls that made it. -/
structure RowLives (db₀ : Db) (id : String) (h : List StoreStep) (p : Calls) : Prop where
  /-- What the tables hold of a chunk is what the machine with one row comes to. -/
  folded : ∀ index, p.state.chunkOf id index = rowAfter db₀ id index h
  /-- A row is never taken away, and stays in its place. -/
  placed : ∀ d ∈ h, ∀ index row, d.before.chunkOf id index = some row →
    ∃ row', d.after.chunkOf id index = some row' ∧ row.SamePlace row'
  /-- A row that is verified was so from the start, or some step marked it, and has not changed
  since. -/
  marked : ∀ index row, p.state.chunkOf id index = some row → row.state = .verified →
    (db₀.chunkOf id index = some row ∧ ∀ d ∈ h, d.after.chunkOf id index = some row) ∨
      ∃ pre d post, h = pre ++ d :: post ∧ d.Verifies id index ∧
        ∀ y ∈ d :: post, y.after.chunkOf id index = some row
  /-- A verified chunk that is not verified again is verified at the end exactly when every
  republish agreed with its hash; having been left out once is enough to lose it. -/
  resumed : ∀ pre post, h = pre ++ post → ∀ index row, rowAfter db₀ id index pre = some row →
    row.state = .verified → (∀ d ∈ post, ¬d.Verifies id index) →
      ((∃ row', p.state.chunkOf id index = some row' ∧ row'.state = .verified) ↔
        ∀ d ∈ post, d.Agrees id index row.sha256)

variable {guard : List StoreStep → StoreStep → Prop} {db₀ : Db} {h : List StoreStep} {p : Calls}
  {id : String}

lemma rowAfter_append (db₀ : Db) (id : String) (index : ℕ) (pre post : List StoreStep) :
    rowAfter db₀ id index (pre ++ post) =
      post.foldl (fun row d => d.onRow id index row) (rowAfter db₀ id index pre) :=
  List.foldl_append

lemma rowAfter_of_run (r : storeSystem.Run guard db₀ h p) (id : String) (index : ℕ) :
    p.state.chunkOf id index = rowAfter db₀ id index h := by
  refine r.history_invariant (fun h db => db.chunkOf id index = rowAfter db₀ id index h) rfl
    fun h p d p' _ _ hb ha hh ih => ?_
  rw [chunkOf_step hh, ih, rowAfter_append]
  rfl

lemma marked_of_run (r : storeSystem.Run guard db₀ h p) (index : ℕ) (row : ChunkRow)
    (hv : row.state = .verified) : p.state.chunkOf id index = some row →
    (db₀.chunkOf id index = some row ∧ ∀ d ∈ h, d.after.chunkOf id index = some row) ∨
      ∃ pre d post, h = pre ++ d :: post ∧ d.Verifies id index ∧
        ∀ y ∈ d :: post, y.after.chunkOf id index = some row := by
  refine r.history_invariant (fun h db => db.chunkOf id index = some row →
    (db₀.chunkOf id index = some row ∧ ∀ d ∈ h, d.after.chunkOf id index = some row) ∨
      ∃ pre d post, h = pre ++ d :: post ∧ StoreStep.Verifies d id index ∧
        ∀ y ∈ d :: post, y.after.chunkOf id index = some row)
    (fun hrow => .inl ⟨hrow, fun d hd => absurd hd List.not_mem_nil⟩)
    fun h p d p' r r' hb ha hh ih hafter => ?_
  by_cases hmarks : StoreStep.Verifies d id index
  · refine .inr ⟨h, d, [], rfl, hmarks, fun y hy => ?_⟩
    rw [List.mem_singleton.1 hy]
    exact hafter
  have hbefore := (StoreStep.of_onRow_verified ((chunkOf_step hh id index).symm.trans hafter) hv
    hmarks).1
  rcases ih hbefore with ⟨hstart, hall⟩ | ⟨pre, x, post, rfl, hx, hall⟩
  · refine .inl ⟨hstart, fun y hy => ?_⟩
    rcases List.mem_append.1 hy with hy | hy
    · exact hall y hy
    · rw [List.mem_singleton.1 hy]
      exact hafter
  · refine .inr ⟨pre, x, post ++ [d], by simp, hx, fun y hy => ?_⟩
    rw [← List.cons_append] at hy
    rcases List.mem_append.1 hy with hy | hy
    · exact hall y hy
    · rw [List.mem_singleton.1 hy]
      exact hafter

/-- A verified row after some steps that verify nothing. -/
lemma foldl_onRow {post : List StoreStep} {index : ℕ} {row : ChunkRow} (hv : row.state = .verified)
    (hnot : ∀ d ∈ post, ¬d.Verifies id index) :
    (∃ row', post.foldl (fun row d => d.onRow id index row) (some row) = some row' ∧
      row'.state = .verified) ↔ ∀ d ∈ post, d.Agrees id index row.sha256 := by
  constructor
  · rintro ⟨row', hrow', hv'⟩
    -- from the last step back: each left the row as it was
    have hback : ∀ start, post.foldl (fun row d => d.onRow id index row) start = some row' →
        start = some row' ∧ ∀ d ∈ post, d.Agrees id index row'.sha256 := by
      intro start hstart
      clear hrow'
      induction post generalizing start with
      | nil => exact ⟨hstart, fun d hd => absurd hd List.not_mem_nil⟩
      | cons d post ih =>
        obtain ⟨hmid, hall⟩ := ih (fun d hd => hnot d (List.mem_cons_of_mem _ hd)) _ hstart
        obtain ⟨hfirst, hagrees⟩ := StoreStep.of_onRow_verified hmid hv' (hnot d List.mem_cons_self)
        refine ⟨hfirst, fun y hy => ?_⟩
        rcases List.mem_cons.1 hy with rfl | hy
        · exact hagrees
        · exact hall y hy
    obtain ⟨hsame, hall⟩ := hback _ hrow'
    rw [Option.some.inj hsame]
    exact hall
  · intro hall
    have hkept : post.foldl (fun row d => d.onRow id index row) (some row) = some row := by
      clear hnot
      induction post with
      | nil => rfl
      | cons d post ih =>
        rw [List.foldl_cons, StoreStep.onRow_of_agrees hv (hall d List.mem_cons_self)]
        exact ih fun d hd => hall d (List.mem_cons_of_mem _ hd)
    exact ⟨row, hkept, hv⟩

/-- **The rows of a download live one by one.**  In every run of the store, with any calls
interleaved at their statements and any of them failing. -/
theorem rows_live_one_by_one (r : storeSystem.Run guard db₀ h p) (id : String) :
    RowLives db₀ id h p where
  folded := rowAfter_of_run r id
  placed d hd index row hrow := by
    rw [chunkOf_step (r.before d hd).1, hrow]
    exact StoreStep.onRow_some d id index row
  marked index row hrow hv := marked_of_run r index row hv hrow
  resumed pre post hh index row hrow hv hnot := by
    rw [rowAfter_of_run r, hh, rowAfter_append, hrow]
    exact foldl_onRow hv hnot

/-! ### A manifest that shrinks and grows back -/

namespace LeftOut

def new : NewDownload where
  downloadId := "download"
  mediaId := "media"
  roomId := none
  userId := "user"
  totalBytes := chunkSizeBytes + 1
  sourcePeerId := .ofList (List.replicate 64 'a')
  chunkSizeBytes := chunkSizeBytes
  manifestVersion := 1

def inp : Effect.Input := { fails := none, now := 0 }

/-- Both chunks are verified; then the manifest loses the second one and gets it back. -/
def moves : List (Move Op Effect.Input) :=
  [.spawn (.create new [(0, 0, chunkSizeBytes, "first"), (1, chunkSizeBytes, 1, "second")]),
    .advance 0 inp,
    .spawn (.markChunkVerified "download" 0 "first"), .advance 1 inp, .advance 1 inp,
      .advance 1 inp,
    .advance 1 inp,
    .spawn (.markChunkVerified "download" 1 "second"), .advance 2 inp, .advance 2 inp,
      .advance 2 inp,
    .advance 2 inp,
    .spawn (.reconcileManifestVersion "download" 2 [(0, "first")]), .advance 3 inp, .advance 3 inp,
    .spawn (.reconcileManifestVersion "download" 3 [(0, "first"), (1, "second")]), .advance 4 inp,
    .advance 4 inp]

/-- The states of the two rows. -/
def states (db : Db) : Option ChunkState × Option ChunkState :=
  ((db.chunkOf "download" 0).map ChunkRow.state, (db.chunkOf "download" 1).map ChunkRow.state)

end LeftOut

/-- The first chunk is still verified, and the second has failed though its hash never changed. -/
theorem rows_live_one_by_one_left_out : ∃ h p, storeSystem.Run (fun _ _ => True) ∅ h p ∧
    RowLives ∅ "download" h p ∧ LeftOut.states p.state = (some .verified, some .failed) := by
  have hrun : ∃ h p, storeSystem.Run (fun _ _ => True) ∅ h p ∧
      (LeftOut.states p.state == (some .verified, some .failed)) = true :=
    System.exists_run_of_play LeftOut.moves (fun _ _ => true)
      (fun out => LeftOut.states out.2.state == (some .verified, some .failed))
      (fun _ _ _ => trivial) (by decide)
  obtain ⟨h, p, r, hs⟩ := hrun
  exact ⟨h, p, r, rows_live_one_by_one r "download", by simpa using hs⟩

end Locast.Transfer
