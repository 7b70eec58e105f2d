import Locast.Transfer.StoreSpec

/-!
# The chunk rows of a download

A row is verified against the hash it declares as long as every `UPDATE` that marks it finds the
hash that was verified.
-/

namespace Locast.Transfer

open Locast.Lib
open Locast.Lib.System (Did.record Handled)

/-! ### Verified rows -/

/-- The step records that the chunk was verified against a hash. -/
def Records (id : String) (index : ℕ) (sha256 : String) (d : StoreStep) : Prop :=
  (d.op = .markChunkVerified id index sha256 ∧ Did.record d = ⟨.setVerified id index, .ok ()⟩) ∨
    ∃ totalBytes sourcePeerId hashes,
      Did.record d = ⟨.completeTx id totalBytes sourcePeerId hashes, .ok ()⟩ ∧
      (index, sha256) ∈ hashes

/-- The chunk was verified against a hash that its row has declared ever since. -/
def Backed (h : List StoreStep) (id : String) (index : ℕ) (sha256 : String) : Prop :=
  ∃ pre d post, h = pre ++ d :: post ∧ Records id index sha256 d ∧
    (∀ row, d.before.chunkOf id index = some row → row.sha256 = sha256) ∧
    ∀ y ∈ d :: post, (y.after.chunkOf id index).map ChunkRow.sha256 = some sha256

/-- **The condition on a step** that marks chunks verified: the hash that was verified is the one
that the row declares. -/
def HashesStand (d : StoreStep) : Prop :=
  (∀ id index sha256, d.op = .markChunkVerified id index sha256 →
    Did.record d = ⟨.setVerified id index, .ok ()⟩ →
    ∀ row, d.before.chunkOf id index = some row → row.sha256 = sha256) ∧
  ∀ id totalBytes sourcePeerId hashes,
    Did.record d = ⟨.completeTx id totalBytes sourcePeerId hashes, .ok ()⟩ →
    ∀ chunk ∈ hashes, ∀ row, d.before.chunkOf id chunk.1 = some row → row.sha256 = chunk.2

namespace Backed

variable {h : List StoreStep} {id : String} {index : ℕ} {sha256 : String} {d : StoreStep}

lemma append (hb : Backed h id index sha256)
    (hd : (d.after.chunkOf id index).map ChunkRow.sha256 = some sha256) :
    Backed (h ++ [d]) id index sha256 := by
  obtain ⟨pre, x, post, rfl, hrec, hbefore, hafter⟩ := hb
  refine ⟨pre, x, post ++ [d], by simp, hrec, hbefore, fun y hy => ?_⟩
  rcases List.mem_cons.1 hy with rfl | hy
  · exact hafter y List.mem_cons_self
  rcases List.mem_append.1 hy with hy | hy
  · exact hafter y (List.mem_cons_of_mem _ hy)
  · rw [List.mem_singleton.1 hy]
    exact hd

lemma now (hrec : Records id index sha256 d)
    (hbefore : ∀ row, d.before.chunkOf id index = some row → row.sha256 = sha256)
    (hd : (d.after.chunkOf id index).map ChunkRow.sha256 = some sha256) :
    Backed (h ++ [d]) id index sha256 := by
  refine ⟨h, d, [], rfl, hrec, hbefore, fun y hy => ?_⟩
  rw [List.mem_singleton.1 hy]
  exact hd

end Backed

/-- Every verified row of `d'` was one of `d`, with the same hash. -/
def NoNew (d d' : Download) : Prop :=
  ∀ index row', d'.chunks.get index = some row' → row'.state = .verified →
    ∃ row, d.chunks.get index = some row ∧ row.state = .verified ∧ row.sha256 = row'.sha256

namespace NoNew

variable {d d' d'' : Download}

lemma of_chunks (h : d'.chunks = d.chunks) : NoNew d d' :=
  fun _ row' hg hv => ⟨row', h ▸ hg, hv, rfl⟩

lemma trans (h : NoNew d d') (h' : NoNew d' d'') : NoNew d d'' := by
  intro index row'' hg hv
  obtain ⟨row', hg', hv', hs'⟩ := h' index row'' hg hv
  obtain ⟨row, hg, hv, hs⟩ := h index row' hg' hv'
  exact ⟨row, hg, hv, hs.trans hs'⟩

/-- A row is put in place that is not verified, or was. -/
lemma of_insert {index : ℕ} {row : ChunkRow} (hd' : d'.chunks = d.chunks.insert index row)
    (hrow : row.state = .verified → ∃ old, d.chunks.get index = some old ∧
      old.state = .verified ∧ old.sha256 = row.sha256) : NoNew d d' := by
  intro j row' hg hv
  rw [hd', AList.get_insert] at hg
  split at hg
  · rename_i heq
    obtain rfl := Option.some.inj hg
    exact heq ▸ hrow hv
  · exact ⟨row', hg, hv, rfl⟩

lemma of_map {g : ℕ → ChunkRow → ChunkRow} (hd' : d'.chunks = d.chunks.mapKeyed g)
    (hgk : ∀ index row, (g index row).state = .verified →
      row.state = .verified ∧ row.sha256 = (g index row).sha256) : NoNew d d' := by
  intro j row' hg hv
  rw [hd', AList.get_mapKeyed] at hg
  obtain ⟨row, hrow, rfl⟩ := Option.map_eq_some_iff.1 hg
  exact ⟨row, hrow, hgk j row hv⟩

lemma insertChunk {index : ℕ} {row : ChunkRow} (hrow : row.state ≠ .verified) :
    NoNew d (d.insertChunk index row) := by
  unfold Download.insertChunk
  split
  · exact of_insert rfl fun hv => absurd hv hrow
  · exact of_chunks rfl

lemma reconcileChunk {chunk : ℕ × String} : NoNew d (d.reconcileChunk chunk) := by
  unfold Download.reconcileChunk
  split
  · split
    · exact of_insert rfl fun hv => by cases hv
    · exact of_chunks rfl
  · exact insertChunk (by simp)

end NoNew

/-- The effect marks chunks verified. -/
def Effect.verifies : Effect → Bool
  | setVerified .. | completeTx .. => true
  | _ => false

lemma noNew_of_mem_edits {e : Effect} (he : e.verifies = false) {now : ℤ}
    {f : Download → Download} (hf : f ∈ e.edits now) (d : Download) : NoNew d (f d) := by
  cases e with
  | setVerified | completeTx => cases he
  | selectState | selectVersion | countChunks | selectChunk => cases hf
  | setState | setFailed | setVersion | setLastError | setSourcePeer | refresh =>
    obtain rfl := List.mem_singleton.1 hf
    exact .of_chunks rfl
  | setReceived id index =>
    obtain rfl := List.mem_singleton.1 hf
    unfold Download.updateChunk
    split
    · exact .of_chunks rfl
    · rename_i row hrow
      refine .of_insert rfl fun hv => ⟨row, hrow, ?_⟩
      by_cases hstate : row.state = .verified
      · simp [hstate]
      · simp [hstate] at hv
  | resetInFlight id =>
    obtain rfl := List.mem_singleton.1 hf
    intro j row' hg hv
    rw [Download.resetInFlight, AList.get_mapVals] at hg
    obtain ⟨row, hrow, rfl⟩ := Option.map_eq_some_iff.1 hg
    split at hv
    · cases hv
    · rename_i hstate
      exact ⟨row, hrow, hv, by rw [if_neg hstate]⟩
  | createTx new chunks =>
    obtain ⟨chunk, -, rfl⟩ := List.mem_map.1 hf
    exact .insertChunk (by simp)
  | reconcileTx id version hashes =>
    simp only [Effect.edits, List.cons_append, List.mem_cons, List.mem_append, List.mem_map,
      List.not_mem_nil, or_false] at hf
    rcases hf with rfl | ⟨chunk, -, rfl⟩ | rfl
    · exact .of_chunks rfl
    · exact .reconcileChunk
    · refine .of_map (g := fun index row =>
        if hashes.length ≤ index then { row with state := .failed } else row) rfl
        fun index row hv => ?_
      by_cases hcut : hashes.length ≤ index
      · simp [hcut] at hv
      · simpa [hcut] using hv

lemma noNew_foldl {e : Effect} (he : e.verifies = false) (now : ℤ) (d : Download) :
    NoNew d ((e.edits now).foldl (fun d f => f d) d) :=
  List.foldlRecOn (motive := fun d' => NoNew d d') _ _ (.of_chunks rfl)
    fun d' hd' _ hf => hd'.trans (noNew_of_mem_edits he hf d')

/-- What `mark_complete` leaves of the rows: a row is as it was, or is named and has the named
hash. -/
lemma get_completed {now : ℤ} {id : String} {totalBytes : ℕ} {sourcePeerId : Option String}
    {hashes : List (ℕ × String)} {d : Download}
    (hstand : ∀ chunk ∈ hashes, ∀ row, d.chunks.get chunk.1 = some row → row.sha256 = chunk.2) :
    ∀ index row',
      (((Effect.completeTx id totalBytes sourcePeerId hashes).edits now).foldl
        (fun d f => f d) d).chunks.get index = some row' →
      d.chunks.get index = some row' ∨ ((index, row'.sha256) ∈ hashes ∧
        ∀ row, d.chunks.get index = some row → row.sha256 = row'.sha256) := by
  have ladder : ∀ f ∈ [Download.raise .pending .connecting,
      Download.raise .connecting .transferring, Download.raise .transferring .verifying,
      Download.finish now totalBytes sourcePeerId], ∀ d : Download, (f d).chunks = d.chunks := by
    intro f hf d
    simp only [List.mem_cons, List.not_mem_nil, or_false] at hf
    rcases hf with rfl | rfl | rfl | rfl <;>
      (first | unfold Download.raise | unfold Download.finish) <;> split <;> rfl
  refine List.foldlRecOn (motive := fun d' : Download => ∀ index row',
    d'.chunks.get index = some row' → d.chunks.get index = some row' ∨
      ((index, row'.sha256) ∈ hashes ∧
        ∀ row, d.chunks.get index = some row → row.sha256 = row'.sha256)) _ _
    (fun _ _ h => .inl h) fun d' hd' f hf => ?_
  rcases List.mem_append.1 hf with hf | hf
  · rw [ladder f hf]
    exact hd'
  obtain ⟨chunk, hmem, rfl⟩ := List.mem_map.1 hf
  intro index row' hget
  unfold Download.upsertVerified at hget
  dsimp only at hget
  split at hget
  · rw [AList.get_insert] at hget
    split at hget
    · rename_i heq
      obtain rfl := Option.some.inj hget
      subst heq
      exact .inr ⟨hmem, hstand chunk hmem⟩
    · exact hd' index row' hget
  · rename_i row hrow
    rw [AList.get_insert] at hget
    split at hget
    · rename_i heq
      obtain rfl := Option.some.inj hget
      subst heq
      rcases hd' _ _ hrow with h | h
      · have hsha : row.sha256 = chunk.2 := hstand chunk hmem row h
        refine .inr ⟨?_, fun row₀ h₀ => ?_⟩
        · rw [show ({ row with state := .verified } : ChunkRow).sha256 = chunk.2 from hsha]
          exact hmem
        · rw [Option.some.inj (h.symm.trans h₀)]
      · exact .inr h
    · exact hd' index row' hget

/-- A row that is verified after a step was so before, or the step records it. -/
lemma verified_after {d : StoreStep} (hh : storeSystem.Handled d) (hg : HashesStand d)
    (hop : ∀ id index, d.effect = .setVerified id index →
      ∃ sha256, d.op = .markChunkVerified id index sha256)
    {id : String} {index : ℕ} {row' : ChunkRow} (hget : d.after.chunkOf id index = some row')
    (hv : row'.state = .verified) :
    (∃ row, d.before.chunkOf id index = some row ∧ row.state = .verified ∧
        row.sha256 = row'.sha256) ∨
      (Records id index row'.sha256 d ∧
        ∀ row, d.before.chunkOf id index = some row → row.sha256 = row'.sha256) := by
  rcases after_get hh id with heq | ⟨rfl, hr, start, hafter, hstart⟩
  · refine .inl ⟨row', ?_, hv, rfl⟩
    rw [← hget, Db.chunkOf, Db.chunkOf, heq]
  rw [Db.chunkOf, hafter] at hget
  obtain ⟨dl', hdl', hget⟩ := Option.bind_eq_some_iff.1 hget
  obtain ⟨dl, rfl, rfl⟩ := Option.map_eq_some_iff.1 hdl'
  -- a row of the download before the edits is a row of the database before the step
  have hold : ∀ j row, dl.chunks.get j = some row →
      d.before.chunkOf d.effect.subject j = some row := by
    intro j row hrow
    rcases hstart with hstart | ⟨-, new, chunks, -, hstart⟩
    · rw [Db.chunkOf, ← hstart]
      exact hrow
    · obtain rfl := Option.some.inj hstart
      simp [Effect.newRow] at hrow
  by_cases hver : d.effect.verifies = false
  · obtain ⟨row, hrow, hvrow, hs⟩ := noNew_foldl hver _ dl index row' hget hv
    exact .inl ⟨row, hold _ _ hrow, hvrow, hs⟩
  have hbefore : d.before.get d.effect.subject = some dl := by
    rcases hstart with hstart | ⟨-, new, chunks, he, -⟩
    · exact hstart.symm
    · simp [he, Effect.verifies] at hver
  have hrows : ∀ j, d.before.chunkOf d.effect.subject j = dl.chunks.get j := fun j => by
    rw [Db.chunkOf, hbefore]
    rfl
  obtain ⟨op, e, inp, resp, before, after⟩ := d
  obtain rfl : resp = .ok (e.answer before) := hr
  simp only [hrows]
  cases e with
  | setVerified id j =>
    obtain ⟨sha256, rfl⟩ := hop id j rfl
    simp only [Effect.edits, List.foldl_cons, List.foldl_nil, Download.updateChunk] at hget
    split at hget
    · exact .inl ⟨row', hget, hv, rfl⟩
    · rename_i row hrow
      rw [AList.get_insert] at hget
      split at hget
      · rename_i heq
        obtain rfl := Option.some.inj hget
        subst heq
        have hsha : row.sha256 = sha256 := hg.1 id _ sha256 rfl rfl row ((hrows _).trans hrow)
        refine .inr ⟨.inl ⟨congrArg _ hsha.symm, rfl⟩, fun row₀ h₀ => ?_⟩
        rw [Option.some.inj (hrow.symm.trans h₀)]
      · exact .inl ⟨row', hget, hv, rfl⟩
  | completeTx id totalBytes sourcePeerId hashes =>
    have hstand : ∀ chunk ∈ hashes, ∀ row, dl.chunks.get chunk.1 = some row →
        row.sha256 = chunk.2 := fun chunk hmem row hrow =>
      hg.2 id totalBytes sourcePeerId hashes rfl chunk hmem row ((hrows _).trans hrow)
    rcases get_completed hstand index row' hget with h | ⟨hmem, hrow⟩
    · exact .inl ⟨row', h, hv, rfl⟩
    · exact .inr ⟨.inr ⟨totalBytes, sourcePeerId, hashes, rfl, hmem⟩, hrow⟩
  | _ => exact absurd rfl hver

variable {guard : List StoreStep → StoreStep → Prop} {s₀ : Db} {h : List StoreStep} {p : Calls}

/-- Every verified row is backed by a verification, in every run from an empty database whose steps
meet the condition. -/
theorem backed_of_run (hguard : ∀ h d, guard h d → HashesStand d)
    (r : storeSystem.Run guard ∅ h p) {id : String} {index : ℕ} {row : ChunkRow}
    (hget : p.state.chunkOf id index = some row) (hv : row.state = .verified) :
    Backed h id index row.sha256 := by
  have hall : ∀ id index row, p.state.chunkOf id index = some row → row.state = .verified →
      Backed h id index row.sha256 := by
    refine r.history_invariant (fun h (s : Db) => ∀ id index row, s.chunkOf id index = some row →
      row.state = .verified → Backed h id index row.sha256) (fun _ _ _ h => by cases h) ?_
    intro h p d p' r r' hb ha hh ih id index row hget hv
    have hlast : h ++ [d] = h ++ d :: [] := rfl
    have hop : ∀ id index, d.effect = .setVerified id index →
        ∃ sha256, d.op = .markChunkVerified id index sha256 := by
      obtain ⟨done, -, -, hmay⟩ := (r'.recalls program_spec fun _ _ => trivial).1 h d [] hlast
      exact hmay.2
    have hsha : (d.after.chunkOf id index).map ChunkRow.sha256 = some row.sha256 := by
      rw [hget, Option.map_some]
    rcases verified_after hh (hguard h d (r'.split hlast).2.1) hop hget hv with
      ⟨old, hold, hvold, hs⟩ | ⟨hrec, hbefore⟩
    · exact (hs ▸ ih id index old hold hvold : Backed h id index row.sha256).append hsha
    · exact .now hrec hbefore hsha
  exact hall id index row hget hv

end Locast.Transfer
