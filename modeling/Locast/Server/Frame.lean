import Locast.Server.Footprint

/-!
# What a step changes

The parts of the server that each step reads and writes, and the inversion lemmas of
`Effect.handle`.
-/

namespace Locast.Server

open Locast.Lib Locast.Protocol Locast.Rooms

namespace ServerState

variable (st : ServerState) (id R : Uuid)

/-! ### Publishing -/

@[simp] lemma publish_heap (item : BroadcastItem) : (st.publish id item).heap = st.heap := by
  unfold publish
  split <;> rfl

@[simp] lemma publish_byId (item : BroadcastItem) : (st.publish id item).byId = st.byId := by
  unfold publish
  split <;> rfl

@[simp] lemma publish_db (item : BroadcastItem) : (st.publish id item).db = st.db := by
  unfold publish
  split <;> rfl

@[simp] lemma publish_byCode (item : BroadcastItem) : (st.publish id item).byCode = st.byCode := by
  unfold publish
  split <;> rfl

@[simp] lemma publish_manifestCache (item : BroadcastItem) :
    (st.publish id item).manifestCache = st.manifestCache := by
  unfold publish
  split <;> rfl

lemma publish_tx (item : BroadcastItem) : (st.publish id item).tx.get R =
    (st.tx.get R).map fun log => log ++ if id = R then [item] else [] := by
  unfold publish
  split
  · rename_i h
    split
    · rename_i hid
      rw [← hid, h]
      rfl
    · simp
  · rename_i log h
    rw [AList.get_insert]
    split
    · rename_i hid
      rw [if_pos hid.symm, hid, h]
      rfl
    · rename_i hid
      rw [if_neg fun h => hid h.symm]
      simp

@[simp] lemma publish_held (item : BroadcastItem) : (st.publish id item).held = st.held := by
  unfold publish
  split <;> rfl

@[simp] lemma publishAll_heap (items : List (Uuid × BroadcastItem)) :
    (st.publishAll items).heap = st.heap := by
  induction items generalizing st with
  | nil => rfl
  | cons i items ih => exact (ih _).trans (publish_heap _ _ _)

@[simp] lemma publishAll_byId (items : List (Uuid × BroadcastItem)) :
    (st.publishAll items).byId = st.byId := by
  induction items generalizing st with
  | nil => rfl
  | cons i items ih => exact (ih _).trans (publish_byId _ _ _)

@[simp] lemma publishAll_db (items : List (Uuid × BroadcastItem)) :
    (st.publishAll items).db = st.db := by
  induction items generalizing st with
  | nil => rfl
  | cons i items ih => exact (ih _).trans (publish_db _ _ _)

@[simp] lemma publishAll_byCode (items : List (Uuid × BroadcastItem)) :
    (st.publishAll items).byCode = st.byCode := by
  induction items generalizing st with
  | nil => rfl
  | cons i items ih => exact (ih _).trans (publish_byCode _ _ _)

@[simp] lemma publishAll_manifestCache (items : List (Uuid × BroadcastItem)) :
    (st.publishAll items).manifestCache = st.manifestCache := by
  induction items generalizing st with
  | nil => rfl
  | cons i items ih => exact (ih _).trans (publish_manifestCache _ _ _)

@[simp] lemma publishAll_held (items : List (Uuid × BroadcastItem)) :
    (st.publishAll items).held = st.held := by
  induction items generalizing st with
  | nil => rfl
  | cons i items ih => exact (ih _).trans (publish_held _ _ _)

/-- The items of a list that go to `R`. -/
def itemsTo (R : Uuid) (items : List (Uuid × BroadcastItem)) : List BroadcastItem :=
  (items.filter fun i => i.1 = R).map (·.2)

lemma publishAll_tx (items : List (Uuid × BroadcastItem)) : (st.publishAll items).tx.get R =
    (st.tx.get R).map fun log => log ++ itemsTo R items := by
  induction items generalizing st with
  | nil => simp [publishAll, itemsTo]
  | cons i items ih =>
    rw [show st.publishAll (i :: items) = (st.publish i.1 i.2).publishAll items from rfl, ih,
      publish_tx, Option.map_map]
    congr 1
    funext log
    by_cases hi : i.1 = R <;> simp [itemsTo, hi]

/-! ### Sections and new rooms -/

variable {ρ : Type} (out : SectionOutcome ρ) (s : RoomState)

@[simp] lemma apply_heap : (st.apply id out).heap = st.heap.put out.state := by simp [apply]

@[simp] lemma apply_byId : (st.apply id out).byId = st.byId := by simp [apply]

@[simp] lemma apply_db : (st.apply id out).db = out.store.db := by simp [apply]

@[simp] lemma apply_byCode : (st.apply id out).byCode = st.byCode := by simp [apply]

@[simp] lemma apply_manifestCache : (st.apply id out).manifestCache = st.manifestCache := by
  simp [apply]

lemma apply_held : (st.apply id out).held = if out.held then id :: st.held else st.held := by
  simp [apply]

lemma apply_tx : (st.apply id out).tx.get R =
    (st.tx.get R).map fun log => log ++ itemsTo R out.sent := by
  rw [apply, publishAll_tx]

@[simp] lemma insertRoom_heap : (st.insertRoom s).heap = st.heap.put s := rfl

@[simp] lemma insertRoom_byId : (st.insertRoom s).byId = st.byId ++ [s.id] := rfl

lemma insertCode_byCode (code c : String) :
    (st.insertCode code id).byCode.get c = if c = code then some id else st.byCode.get c := by
  simp [insertCode, AList.get_insert]

lemma insertChannel_tx :
    (st.insertChannel id).tx.get R = if R = id then some [] else st.tx.get R := by
  simp [insertChannel, AList.get_insert]

@[simp] lemma install_heap : (st.install s).heap = st.heap.put s := rfl

@[simp] lemma install_manifestCache : (st.install s).manifestCache = st.manifestCache := rfl

lemma install_tx : (st.install s).tx.get R = if R = s.id then some [] else st.tx.get R :=
  insertChannel_tx _ _ _

/-! ### The end of a publication -/

variable (c : CachedManifest)

lemma putManifest_manifestCache : (st.putManifest id c).manifestCache.get R =
    if R = id then some c else st.manifestCache.get R := by
  simp [putManifest, AList.get_insert]

variable (split : SplitForWire)

@[simp] lemma publishManifest_heap : (st.publishManifest split id c).heap = st.heap := by
  simp [publishManifest]

@[simp] lemma publishManifest_byId : (st.publishManifest split id c).byId = st.byId := by
  simp [publishManifest]

@[simp] lemma publishManifest_byCode : (st.publishManifest split id c).byCode = st.byCode := by
  simp [publishManifest]

@[simp] lemma publishManifest_db : (st.publishManifest split id c).db = st.db := by
  simp [publishManifest]

@[simp] lemma publishManifest_manifestCache :
    (st.publishManifest split id c).manifestCache = st.manifestCache := by simp [publishManifest]

@[simp] lemma publishManifest_held :
    (st.publishManifest split id c).held = st.held.erase id := by simp [publishManifest]

lemma publishManifest_tx : (st.publishManifest split id c).tx.get R =
    (st.tx.get R).map fun log => log ++ itemsTo R (publishEvents split id [c.event id]) := by
  rw [publishManifest, publishAll_tx]

/-! ### Removals -/

variable (map : RegistryMap)

@[simp] lemma remove_heap : (st.remove map id).heap = st.heap := by cases map <;> rfl

@[simp] lemma remove_db : (st.remove map id).db = st.db := by cases map <;> rfl

lemma remove_byId : (st.remove map id).byId =
    if map = .byId then st.byId.filter (· ≠ id) else st.byId := by cases map <;> rfl

lemma remove_tx : (st.remove map id).tx.get R =
    if map = .channel ∧ R = id then none else st.tx.get R := by
  cases map with
  | channel => simp [remove, AList.get_erase]
  | _ => simp [remove]

lemma remove_manifestCache : (st.remove map id).manifestCache.get R =
    if map = .manifestCache ∧ R = id then none else st.manifestCache.get R := by
  cases map with
  | manifestCache => simp [remove, AList.get_erase]
  | _ => simp [remove]

lemma remove_byCode {s : RoomState} (hs : st.heap.get id = some s) (c : String) :
    (st.remove map id).byCode.get c =
      if map = .channel ∧ c = s.code then none else st.byCode.get c := by
  cases map with
  | channel => simp [remove, hs, AList.get_erase]
  | _ => simp [remove]

end ServerState

/-! ### Inversion -/

variable {env : Env} {inp : Input} {st st' : ServerState}

/-- **What a section does to the server.** -/
lemma handle_section {id : Uuid} {sec : Section} {r : sec.Reply}
    (h : Effect.handle env (.section id sec) inp st = some (r, st')) :
    ∃ s out, st.heap.get id = some s ∧
      sec.run ⟨env.cfg, env.crates, inp.clockMs⟩ ⟨st.db, inp.faults⟩ s = some out ∧
      r = out.reply ∧ st' = st.apply id out := by
  simp only [Effect.handle] at h
  split at h
  · cases h
  · rename_i s hs
    split at h
    · cases h
    obtain ⟨out, hout, h⟩ := Option.map_eq_some_iff.1 h
    cases h
    exact ⟨s, out, hs, hout, rfl, rfl⟩

/-- No section runs while a publication holds the lock. -/
lemma handle_section_free {id : Uuid} {sec : Section} {r : sec.Reply}
    (h : Effect.handle env (.section id sec) inp st = some (r, st')) : id ∉ st.held := by
  simp only [Effect.handle] at h
  split at h
  · cases h
  · split at h
    · cases h
    · assumption

/-- A read waits for the lock and changes nothing. -/
lemma handle_read {id : Uuid} {s : RoomState}
    (h : Effect.handle env (.read id) inp st = some (s, st')) :
    st.heap.get id = some s ∧ id ∉ st.held ∧ st' = st := by
  simp only [Effect.handle] at h
  split at h
  · cases h
  · rename_i hfree
    obtain ⟨s', hs, h⟩ := Option.map_eq_some_iff.1 h
    cases h
    exact ⟨hs, hfree, rfl⟩

/-- A benign step changes no room, no channel, none of the registry's maps and no table. -/
lemma handle_benign {e : Effect} (he : e.benign = true) {r : e.Resp}
    (h : Effect.handle env e inp st = some (r, st')) :
    st'.heap = st.heap ∧ st'.tx = st.tx ∧ st'.byId = st.byId ∧ st'.db = st.db ∧
      st'.byCode = st.byCode ∧ st'.manifestCache = st.manifestCache ∧ st'.held = st.held := by
  cases e with
  | newId =>
    simp only [Effect.handle] at h
    split at h <;> cases h
    exact ⟨rfl, rfl, rfl, rfl, rfl, rfl, rfl⟩
  | rooms =>
    simp only [Effect.handle] at h
    split at h <;> cases h
    exact ⟨rfl, rfl, rfl, rfl, rfl, rfl, rfl⟩
  | read id =>
    obtain ⟨-, -, rfl⟩ := handle_read h
    exact ⟨rfl, rfl, rfl, rfl, rfl, rfl, rfl⟩
  | _ =>
    first
    | cases h
      exact ⟨rfl, rfl, rfl, rfl, rfl, rfl, rfl⟩
    | cases he

/-- **Every answer is as its task may expect.** -/
theorem handle_answers {e : Effect} {r : e.Resp}
    (h : Effect.handle env e inp st = some (r, st')) : e.Answers r := by
  cases e with
  | «section» id sec =>
    obtain ⟨s, out, -, hout, rfl, -⟩ := handle_section h
    exact (Section.run_framed hout).answers
  | _ => exact trivial

/-- Every answer of a run is as its task may expect. -/
lemma handled_answers {d : Step} (hd : (system env).Handled d) : d.effect.Answers d.resp := by
  have h : Effect.handle env d.effect d.inp d.before = some (d.resp, d.after) := hd
  exact handle_answers h

/-- **The footprint of a run**: every step of an operation is in the footprint of its program. -/
theorem RunFrom.footprint {guard : List Step → Step → Prop} {st₀ : ServerState} {h : List Step}
    {p : Tasks} (r : RunFrom env guard st₀ h p) {c : Op → Prop} {ok : Effect → Prop}
    (hprog : ∀ op, c op → Only ok (fun _ => True) (op.program env)) :
    ∀ d ∈ h, c d.op → ok d.effect := by
  have hsat (op : Op) : Only (fun e => c op → ok e) (fun _ => True) (op.program env) := by
    by_cases hc : c op
    · exact (hprog op hc).mono (fun e he _ => he) fun _ h => h
    · generalize op.program env = p
      induction p with
      | ret a => exact trivial
      | op e k ih => exact ⟨fun h => absurd h hc, fun r _ => ih r⟩
  exact (System.Run.footprint hsat (fun d hd => handled_answers hd) r).1

/-- Every step of a run happened as `handle` says. -/
lemma RunFrom.handled {guard : List Step → Step → Prop} {st₀ : ServerState} {h : List Step}
    {p : Tasks} (r : RunFrom env guard st₀ h p) : ∀ d ∈ h, (system env).Handled d :=
  fun d hd => (System.Run.before r d hd).1

/-! ### The same server, and the same room -/

/-- The rooms, the registry's maps, the tables and the locks are the same in both states. -/
structure SameServer (st st' : ServerState) : Prop where
  heap : ∀ R, st'.heap.get R = st.heap.get R
  byId : st'.byId = st.byId
  byCode : st'.byCode = st.byCode
  tx : ∀ R, st'.tx.get R = st.tx.get R
  manifestCache : st'.manifestCache = st.manifestCache
  rooms : ∀ R, st'.db.rooms.get R = st.db.rooms.get R
  participants : ∀ key, st'.db.participants.get key = st.db.participants.get key
  manifests : ∀ R, st'.db.manifests.get R = st.db.manifests.get R
  held : st'.held = st.held

namespace SameServer

lemma refl (st : ServerState) : SameServer st st := by constructor <;> intros <;> rfl

lemma trans {st₀ st₁ st₂ : ServerState} (h : SameServer st₀ st₁) (h' : SameServer st₁ st₂) :
    SameServer st₀ st₂ where
  heap R := (h'.heap R).trans (h.heap R)
  byId := h'.byId.trans h.byId
  byCode := h'.byCode.trans h.byCode
  tx R := (h'.tx R).trans (h.tx R)
  manifestCache := h'.manifestCache.trans h.manifestCache
  rooms R := (h'.rooms R).trans (h.rooms R)
  participants key := (h'.participants key).trans (h.participants key)
  manifests R := (h'.manifests R).trans (h.manifests R)
  held := h'.held.trans h.held

/-- A benign step changes nothing. -/
lemma of_benign {e : Effect} (he : e.benign = true) {r : e.Resp}
    (h : Effect.handle env e inp st = some (r, st')) : SameServer st st' := by
  obtain ⟨hheap, htx, hbyId, hdb, hcode, hcache, hheld⟩ := handle_benign he h
  constructor <;> simp [hheap, htx, hbyId, hdb, hcode, hcache, hheld]

/-- Nor does a section that leaves its room and the database alone. -/
lemma of_section {ρ : Type} {out : SectionOutcome ρ} {R : Uuid} {s : RoomState}
    (hs : st.heap.get R = some s) (hstate : out.state = s) (hdb : out.store.db = st.db)
    (hsent : out.sent = []) (hheld : out.held = false) : SameServer st (st.apply R out) := by
  refine ⟨fun R' => ?_, by simp, by simp, fun R' => ?_, by simp, by simp [hdb], by simp [hdb],
    by simp [hdb], by simp [ServerState.apply_held, hheld]⟩
  · rw [ServerState.apply_heap, hstate, Heap.get_put, Heap.get_id hs]
    split
    · rename_i hid
      rw [hid, hs]
    · rfl
  · rw [ServerState.apply_tx, hsent]
    simp [ServerState.itemsTo]

/-- A refused store call changes nothing. -/
lemma of_db {db : Db} (h : db = st.db) : SameServer st { st with db } := by
  subst h
  exact refl st

end SameServer

/-- The room and the channel of `R` are the same in both states. -/
def SameRoom (R : Uuid) (st st' : ServerState) : Prop :=
  st'.heap.get R = st.heap.get R ∧ st'.tx.get R = st.tx.get R

/-- A section leaves every other room alone, when its items go to its own. -/
lemma handle_section_frame {id R : Uuid} {sec : Section} {r : sec.Reply}
    (h : Effect.handle env (.section id sec) inp st = some (r, st')) (hR : R ≠ id)
    (htarget : sec.target id = id) : SameRoom R st st' := by
  obtain ⟨s, out, hs, hout, -, rfl⟩ := handle_section h
  have hf := Section.run_framed hout
  have hid : out.state.id = id := hf.id.trans (Heap.get_id hs)
  refine ⟨by simp [hid, hR], ?_⟩
  have hnone : ServerState.itemsTo R out.sent = [] := by
    refine List.map_eq_nil_iff.2 (List.filter_eq_nil_iff.2 fun i hi => ?_)
    have := (hf.sent i hi).1
    rw [Heap.get_id hs, htarget] at this
    simpa [this] using hR.symm
  rw [ServerState.apply_tx, hnone]
  simp

end Locast.Server
