import Locast.Lib.Past
import Locast.Transfer.StoreOps

/-!
# What the calls of the store do

One inversion lemma for a statement, `handled_cases`, and one specification for a call,
`program_spec`: what it may do after what it has done, and what it has done when it fails.
-/

namespace Locast.Transfer

open Locast.Lib
open Locast.Lib.System (Did.record)

/-! ### Statements -/

lemma Db.get_update {db : Db} {id id' : String} {f : Download → Download} :
    (db.update id f).get id' = if id' = id then (db.get id).map f else db.get id' := by
  unfold update
  split
  · rename_i h
    split
    · rename_i heq
      rw [heq, h, Option.map_none]
    · rfl
  · rename_i d h
    rw [AList.get_insert, h, Option.map_some]

/-- Everything a step does. -/
lemma handled_cases {d : StoreStep} (hh : storeSystem.Handled d) :
    (∃ msg, d.resp = .error msg ∧ d.after = d.before) ∨
      (d.resp = .ok (d.effect.answer d.before) ∧
        d.after = (d.effect.statements d.inp.now d.before).foldl (fun db f => f db) d.before) := by
  have h : d.effect.handle d.inp d.before = some (d.resp, d.after) := hh
  unfold Effect.handle at h
  split at h
  · obtain ⟨hr, ha⟩ := Prod.mk.inj (Option.some.inj h)
    exact .inl ⟨_, hr.symm, ha.symm⟩
  · obtain ⟨hr, ha⟩ := Prod.mk.inj (Option.some.inj h)
    exact .inr ⟨hr.symm, ha.symm⟩

lemma get_foldl_update {id id' : String} (fs : List (Download → Download)) (db : Db) :
    ((fs.map (Db.update id)).foldl (fun db f => f db) db).get id' =
      if id' = id then (db.get id).map fun d => fs.foldl (fun d f => f d) d else db.get id' := by
  induction fs generalizing db with
  | nil =>
    split
    · rename_i heq
      rw [heq]
      exact (congrFun Option.map_id _).symm
    · rfl
  | cons f fs ih =>
    rw [List.map_cons, List.foldl_cons, ih, Db.get_update, Db.get_update, if_pos rfl,
      Option.map_map]
    split <;> rfl

lemma get_insertDownload {now : ℤ} {new : NewDownload} {db : Db} (hkept : db.admitsNew new = true) :
    (Effect.insertDownload now new db).get new.downloadId = db.get new.downloadId ∨
      (db.get new.downloadId = none ∧
        (Effect.insertDownload now new db).get new.downloadId = some (Effect.newRow now new)) := by
  unfold Effect.insertDownload
  unfold Db.admitsNew at hkept
  cases hg : db.get new.downloadId with
  | some d => simp [hg]
  | none =>
    have hfree : db.activeConflict new.downloadId new.mediaId new.roomId new.userId = false := by
      simpa [hg] using hkept
    exact .inr ⟨rfl, by simp [hfree]⟩

lemma get_insertDownload_of_ne {now : ℤ} {new : NewDownload} {db : Db} {id : String}
    (hne : id ≠ new.downloadId) : (Effect.insertDownload now new db).get id = db.get id := by
  unfold Effect.insertDownload
  split
  · rfl
  · rw [AList.get_insert, if_neg hne]

/-- What an effect does to a download: nothing, or its edits of the row that was there or that it
has created. -/
lemma after_get {d : StoreStep} (hh : storeSystem.Handled d) (id : String) :
    d.after.get id = d.before.get id ∨ (id = d.effect.subject ∧
      d.resp = .ok (d.effect.answer d.before) ∧ ∃ start,
        d.after.get id = start.map
          (fun row => (d.effect.edits d.inp.now).foldl (fun d f => f d) row) ∧
        (start = d.before.get id ∨ (d.before.get id = none ∧
          ∃ new chunks, d.effect = .createTx new chunks ∧
            start = some (Effect.newRow d.inp.now new)))) := by
  rcases handled_cases hh with ⟨msg, -, ha⟩ | ⟨hr, ha⟩
  · exact .inl (by rw [ha])
  obtain ⟨op, e, inp, resp, before, after⟩ := d
  obtain rfl : after = (e.statements inp.now before).foldl (fun db f => f db) before := ha
  have plain (hs : e.statements inp.now before = (e.edits inp.now).map (Db.update e.subject)) :
      ((e.statements inp.now before).foldl (fun db f => f db) before).get id = before.get id ∨
        id = e.subject ∧ ((e.statements inp.now before).foldl (fun db f => f db) before).get id =
          (before.get id).map fun row => (e.edits inp.now).foldl (fun d f => f d) row := by
    rw [hs, get_foldl_update]
    split
    · rename_i heq
      exact .inr ⟨heq, by rw [heq]⟩
    · exact .inl rfl
  cases e with
  | createTx new chunks =>
    dsimp only
    by_cases hkept : before.admitsNew new = true
    · rw [Effect.statements, if_pos hkept, List.foldl_cons, get_foldl_update]
      split
      · rename_i heq
        refine .inr ⟨heq, hr, _, rfl, ?_⟩
        rcases get_insertDownload hkept with h | ⟨hnone, h⟩
        · exact .inl (h.trans (congrArg before.get heq.symm))
        · exact .inr ⟨heq ▸ hnone, new, chunks, rfl, h⟩
      · rename_i hne
        exact .inl (get_insertDownload_of_ne hne)
    · rw [Effect.statements, if_neg hkept]
      exact .inl rfl
  | _ =>
    rcases plain rfl with h | ⟨heq, h⟩
    · exact .inl h
    · exact .inr ⟨heq, hr, _, h, .inl rfl⟩

/-! ### Calls -/

/-- What a statement did and was answered. -/
abbrev Record : Type := (e : Effect) × e.Resp

/-- The statement stored a state. -/
def storesState : Record → Bool
  | ⟨.setState .., (.ok _ : Except String Unit)⟩ => true
  | ⟨.setFailed .., (.ok _ : Except String Unit)⟩ => true
  | ⟨.createTx .., (.ok kept : Except String Bool)⟩ => kept
  | ⟨.completeTx .., (.ok _ : Except String Unit)⟩ => true
  | _ => false

/-- The download whose `transferred_bytes` a call has yet to recompute. -/
def owed (done : List Record) : Option String :=
  match done.getLast? with
  | some ⟨.setVerified id _, (.ok _ : Except String Unit)⟩ => some id
  | _ => none

/-- What a call may do next: it refreshes what it owes, and a chunk is marked verified by
`mark_chunk_verified` alone. -/
def Op.May (op : Op) (done : List Record) (e : Effect) : Prop :=
  (∀ id, owed done = some id → e = .refresh id) ∧
    ∀ id index, e = .setVerified id index → ∃ sha256, op = .markChunkVerified id index sha256

/-- What was done stored no state, and nothing is owed. -/
structure Clean (done : List Record) : Prop where
  stores : ∀ x ∈ done, storesState x = false
  owes : owed done = none

/-- A call that fails has stored no state. -/
def FailsClean {α : Type} (r : Except ChunkStateError α) (done : List Record) : Prop :=
  (∃ e, r = .error e) → ∀ x ∈ done, storesState x = false

/-- The automaton that remembers what a call did. -/
abbrev Op.recording (op : Op) : Automaton Effect Effect.Resp (List Record) :=
  .past op.May fun _ _ => True

section Rules

variable {α : Type} {op : Op} {g : List Record} {e : Effect} {k : e.Answer → Call α}

lemma clean_nil : Clean [] := ⟨fun _ hx => absurd hx List.not_mem_nil, rfl⟩

lemma stores_append {x : Record} (hg : ∀ y ∈ g, storesState y = false)
    (hx : storesState x = false) : ∀ y ∈ g ++ [x], storesState y = false := by
  intro y hy
  rcases List.mem_append.1 hy with hy | hy
  · exact hg y hy
  · rw [List.mem_singleton.1 hy]
    exact hx

lemma spec_fail {err : ChunkStateError} (hg : Clean g) :
    (Call.fail err : Call α).Sat op.recording FailsClean g := fun _ => hg.stores

lemma spec_done {a : α} : (Call.done a : Call α).Sat op.recording FailsClean g :=
  fun ⟨_, he⟩ => by cases he

/-- The rule for a statement whose failure ends the call. -/
lemma spec_query (hmay : op.May g e)
    (herr : ∀ msg, ∀ x ∈ g ++ [⟨e, .error msg⟩], storesState x = false)
    (hk : ∀ a, (k a).Sat op.recording FailsClean (g ++ [⟨e, .ok a⟩])) :
    (Call.query e k).Sat op.recording FailsClean g := by
  refine ⟨hmay, fun (r : Except String e.Answer) _ => ?_⟩
  cases r with
  | error msg => exact fun _ => herr msg
  | ok a => exact hk a

/-- Only `mark_chunk_verified` marks a chunk verified. -/
def Effect.plain : Effect → Bool
  | setVerified .. => false
  | _ => true

lemma may_of_plain (hg : owed g = none) (he : e.plain = true) : op.May g e := by
  refine ⟨fun id ho => ?_, fun id index heq => ?_⟩
  · rw [hg] at ho
    cases ho
  · subst heq
    cases he

/-- A statement that stores no state and leaves nothing to refresh. -/
lemma spec_step (hg : Clean g) (he : e.plain = true)
    (hs : ∀ r : e.Resp, storesState ⟨e, r⟩ = false ∧ ∀ g, owed (g ++ [⟨e, r⟩]) = none)
    (hk : ∀ a g', Clean g' → (k a).Sat op.recording FailsClean g') :
    (Call.query e k).Sat op.recording FailsClean g :=
  spec_query (may_of_plain hg.owes he) (fun _ => stores_append hg.stores (hs _).1)
    fun a => hk a _ ⟨stores_append hg.stores (hs _).1, (hs _).2 g⟩

/-- A statement that stores a state is the last one. -/
lemma spec_last (hg : Clean g) (he : e.plain = true)
    (hs : ∀ msg, storesState ⟨e, .error msg⟩ = false)
    (hk : ∀ a, (k a).Sat op.recording FailsClean (g ++ [⟨e, .ok a⟩])) :
    (Call.query e k).Sat op.recording FailsClean g :=
  spec_query (may_of_plain hg.owes he) (fun msg => stores_append hg.stores (hs msg)) hk

lemma spec_void {call : Call α} (h : call.Sat op.recording FailsClean g) :
    call.void.Sat op.recording FailsClean g := by
  refine Prog.sat_bind.2 (h.mono fun r g' hr => ?_)
  rintro ⟨e, he⟩
  cases r with
  | error e' => exact hr ⟨e', rfl⟩
  | ok a => cases he

end Rules

/-- `owed` looks at the last record only. -/
lemma owed_concat (g : List Record) (x : Record) : owed (g ++ [x]) = owed [x] := by
  simp [owed]

section Calls

variable {g : List Record}

lemma spec_fetchState {op : Op} {α : Type} {id : String} {k : DownloadState → Call α}
    (hk : ∀ current g, Clean g → (k current).Sat op.recording FailsClean g) :
    (fetchState id k).Sat op.recording FailsClean [] := by
  refine spec_step clean_nil rfl (fun r => ⟨rfl, fun g => owed_concat g _⟩)
    fun (state : Option DownloadState) g hg => ?_
  cases state with
  | none => exact spec_fail hg
  | some current => exact hk current g hg

lemma spec_fetchManifestVersion {op : Op} {α : Type} {id : String} {k : ℤ → Call α}
    (hk : ∀ current g, Clean g → (k current).Sat op.recording FailsClean g) :
    (fetchManifestVersion id k).Sat op.recording FailsClean [] := by
  refine spec_step clean_nil rfl (fun r => ⟨rfl, fun g => owed_concat g _⟩)
    fun (version : Option ℤ) g hg => ?_
  cases version with
  | none => exact spec_fail hg
  | some current => exact hk current g hg

lemma spec_fetchTotalChunks {op : Op} {α : Type} {id : String} {k : ℕ → Call α}
    (hk : ∀ total g, Clean g → (k total).Sat op.recording FailsClean g) :
    (fetchTotalChunks id k).Sat op.recording FailsClean [] :=
  spec_step clean_nil rfl (fun _ => ⟨rfl, fun g => owed_concat g _⟩)
    fun (n : ℕ) g hg => hk (asU32 n) g hg

lemma spec_create (new : NewDownload) (chunks : List NewChunk) :
    (create new chunks).Sat (Op.create new chunks).recording FailsClean [] := by
  unfold create
  split
  · exact spec_fail clean_nil
  · refine spec_last clean_nil rfl (fun _ => rfl) fun (kept : Bool) => ?_
    cases kept with
    | true => exact spec_done
    | false => exact spec_fail ⟨stores_append clean_nil.stores rfl, rfl⟩

lemma spec_markChunkVerified (id : String) (index : ℕ) (sha256 : String) :
    (markChunkVerified id index sha256).Sat (Op.markChunkVerified id index sha256).recording
      FailsClean [] := by
  have update : ∀ g, Clean g → (Call.query (.setVerified id index) fun _ =>
      Call.query (.refresh id) fun _ => Call.done ()).Sat
        (Op.markChunkVerified id index sha256).recording FailsClean g := by
    intro g hg
    refine spec_query ⟨fun id' ho => ?_, fun id' index' heq => ?_⟩
      (fun _ => stores_append hg.stores rfl) fun _ => ?_
    · rw [hg.owes] at ho
      cases ho
    · cases heq
      exact ⟨sha256, rfl⟩
    -- what is owed is refreshed
    · refine spec_query ⟨fun id' ho => ?_, fun _ _ heq => by cases heq⟩
        (fun _ => stores_append (stores_append hg.stores rfl) rfl) fun _ => spec_done
      rw [owed_concat] at ho
      cases ho
      rfl
  unfold markChunkVerified
  refine spec_fetchTotalChunks fun total g hg => ?_
  split
  · exact spec_fail hg
  refine spec_step hg rfl (fun r => ⟨rfl, fun g => owed_concat g _⟩)
    fun (existing : Option ChunkRow) g' hg' => ?_
  cases existing with
  | none => exact update g' hg'
  | some row =>
    dsimp only
    split
    · exact spec_done
    · split
      · exact spec_fail hg'
      · exact update g' hg'

/-- **The specification of the calls.** -/
theorem program_spec (op : Op) : op.program.Sat op.recording FailsClean [] := by
  have single {op : Op} {e : Effect} (he : e.plain = true)
      (hs : ∀ r : e.Resp, storesState ⟨e, r⟩ = false ∧ ∀ g, owed (g ++ [⟨e, r⟩]) = none)
      (g : List Record) (hg : Clean g) : ∀ {α : Type} {a : e.Answer → α},
      (Call.query e fun x => Call.done (a x)).Sat op.recording FailsClean g :=
    spec_step hg he hs fun _ _ _ => spec_done
  cases op with
  | create new chunks => exact spec_create new chunks
  | markChunkVerified id index sha256 => exact spec_markChunkVerified id index sha256
  | markChunkReceived id index =>
    simp only [Op.program, markChunkReceived]
    refine spec_fetchTotalChunks fun total g hg => ?_
    split
    · exact spec_fail hg
    · exact single rfl (fun r => ⟨rfl, fun g => owed_concat g _⟩) g hg
  | resetInFlightToPending id =>
    exact spec_void (single rfl (fun r => ⟨rfl, fun g => owed_concat g _⟩) [] clean_nil)
  | transition id target =>
    refine spec_fetchState fun current g hg => ?_
    split
    · exact spec_fail hg
    · exact spec_last hg rfl (fun _ => rfl) fun _ => spec_done
  | markFailed id errorMessage =>
    refine spec_fetchState fun current g hg => ?_
    split
    · exact spec_fail hg
    · exact spec_last hg rfl (fun _ => rfl) fun _ => spec_done
  | markComplete id totalBytes sourcePeerId hashes =>
    exact spec_last clean_nil rfl (fun _ => rfl) fun _ => spec_done
  | setLastError id message =>
    exact single rfl (fun r => ⟨rfl, fun g => owed_concat g _⟩) [] clean_nil
  | setSourcePeerId id peerId =>
    exact single rfl (fun r => ⟨rfl, fun g => owed_concat g _⟩) [] clean_nil
  | bindManifestVersion id newVersion =>
    simp only [Op.program, bindManifestVersion]
    split
    · exact spec_fail clean_nil
    refine spec_fetchManifestVersion fun current g hg => ?_
    split
    · exact spec_fail hg
    · exact single rfl (fun r => ⟨rfl, fun g => owed_concat g _⟩) g hg
  | reconcileManifestVersion id newVersion hashes =>
    refine spec_void ?_
    unfold reconcileManifestVersion
    split
    · exact spec_fail clean_nil
    refine spec_fetchManifestVersion fun current g hg => ?_
    split
    · exact spec_fail hg
    · exact single rfl (fun r => ⟨rfl, fun g => owed_concat g _⟩) g hg

end Calls

end Locast.Transfer
