import Locast.Rooms.Durable
import Locast.Rooms.Sends

/-!
# Publications of a manifest

What a publication does to the rows of `room_manifests` and what it sends later, and that nothing
else touches those rows.
-/

namespace Locast.Rooms

open Locast.Lib Locast.Protocol

/-! ### The rows of a room -/

/-- The cache's copy of a row. -/
def RoomManifestRow.cached (row : RoomManifestRow) : CachedManifest where
  version := row.version
  manifest := row.manifest
  hostUserId := row.hostUserId
  publishedAtMs := row.createdAt
  manifestHash := row.manifestHash

namespace Db

variable {db db' : Db} {R : Uuid} {row : RoomManifestRow}

/-- The rows of a room. -/
def rowsOf (db : Db) (R : Uuid) : List RoomManifestRow := (db.manifests.get R).getD []

/-- The greatest stored version, 0 without a row. -/
def topVersion (db : Db) (R : Uuid) : ℤ := ((db.latestRoomManifest R).map (·.version)).getD 0

lemma latest_eq_least (db : Db) (R : Uuid) :
    db.latestRoomManifest R = least (fun a b => b.version < a.version) (db.rowsOf R) := by
  unfold latestRoomManifest rowsOf
  cases db.manifests.get R <;> rfl

lemma latest_mem (h : db.latestRoomManifest R = some row) : row ∈ db.rowsOf R :=
  least_mem ((latest_eq_least db R).symm.trans h)

/-- **The latest row has the greatest version.** -/
lemma version_le_latest (h : db.latestRoomManifest R = some row) :
    ∀ r ∈ db.rowsOf R, r.version ≤ row.version := by
  intro r hr
  rw [latest_eq_least] at h
  have htrans (a b c : RoomManifestRow) (h₁ : decide (b.version < a.version) = true)
      (h₂ : decide (c.version < b.version) = true) : decide (c.version < a.version) = true :=
    decide_eq_true ((of_decide_eq_true h₂).trans (of_decide_eq_true h₁))
  simpa using not_before_least (by simp) htrans h r hr

lemma topVersion_eq (db : Db) (R : Uuid) : db.topVersion R =
    (((db.latestRoomManifest R).map RoomManifestRow.cached).map (·.version)).getD 0 := by
  rw [topVersion, Option.map_map]
  rfl

lemma version_le_top (db : Db) (R : Uuid) : ∀ r ∈ db.rowsOf R, r.version ≤ db.topVersion R := by
  intro r hr
  unfold topVersion
  cases h : db.latestRoomManifest R with
  | none =>
    rw [latest_eq_least] at h
    cases hrows : db.rowsOf R <;> simp_all [least]
  | some row => exact version_le_latest h r hr

/-- A row above all others is the latest. -/
lemma latest_of_above (hmem : row ∈ db.rowsOf R)
    (habove : ∀ r ∈ db.rowsOf R, row.version ≤ r.version → r = row) :
    db.latestRoomManifest R = some row := by
  cases h : db.latestRoomManifest R with
  | none =>
    rw [latest_eq_least] at h
    cases hrows : db.rowsOf R <;> simp_all [least]
  | some r => rw [habove r (latest_mem h) (version_le_latest h row hmem)]

lemma latest_congr (h : db'.manifests.get R = db.manifests.get R) :
    db'.latestRoomManifest R = db.latestRoomManifest R := by
  simp only [latestRoomManifest, h]

/-- A statement on another table, or on the rows of another room. -/
lemma exec_manifests {request : StoreRequest} (h : db.exec request = .ok db')
    (hr : request.isManifest = false) : db'.manifests = db.manifests := by
  cases request with
  | insertRoomManifest => cases hr
  | pruneRoomManifests => cases hr
  | insertRoom =>
    simp only [exec] at h
    split at h
    · cases h
    split at h <;> cases h
    rfl
  | updateParticipantStatus roomId userId =>
    cases h
    unfold updateParticipant
    split <;> rfl
  | updateParticipantCapSet roomId userId =>
    cases h
    unfold updateParticipant
    split <;> rfl
  | endRoom roomId =>
    cases h
    unfold updateRoom
    split <;> rfl
  | setHostDisconnectDeadline roomId =>
    cases h
    unfold updateRoom
    split <;> rfl
  | _ =>
    cases h
    rfl

/-- A statement on the rows of another room. -/
lemma insertRoomManifest_rows (h : db.exec (.insertRoomManifest R row) = .ok db') :
    db'.rowsOf R = db.rowsOf R ++ [row] := by
  simp only [exec] at h
  split at h <;> cases h
  simp [rowsOf]

lemma pruneRoomManifests_rows {keep : ℤ} (hlatest : db.latestRoomManifest R = some row)
    (h : db.exec (.pruneRoomManifests R keep) = .ok db') :
    db'.rowsOf R = (db.rowsOf R).filter fun r => row.version - keep < r.version := by
  simp only [exec, hlatest] at h
  cases h
  simp [rowsOf]

/-- A row with a version above the others is the latest. -/
lemma latest_insert (hnew : ∀ r ∈ db.rowsOf R, r.version < row.version)
    (h : db.exec (.insertRoomManifest R row) = .ok db') :
    db'.latestRoomManifest R = some row := by
  have hrows := insertRoomManifest_rows h
  refine latest_of_above (by simp [hrows]) fun r hr hle => ?_
  rcases List.mem_append.1 (hrows ▸ hr) with hr | hr
  · exact absurd (hnew r hr) (not_lt.2 hle)
  · exact List.mem_singleton.1 hr

/-- Pruning keeps the latest row. -/
lemma latest_prune {keep : ℤ} (hkeep : 0 < keep) (hlatest : db.latestRoomManifest R = some row)
    (hunique : ∀ r ∈ db.rowsOf R, row.version ≤ r.version → r = row)
    (h : db.exec (.pruneRoomManifests R keep) = .ok db') :
    db'.latestRoomManifest R = some row := by
  have hrows := pruneRoomManifests_rows hlatest h
  refine latest_of_above ?_ fun r hr hle => ?_
  · rw [hrows]
    exact List.mem_filter.2 ⟨latest_mem hlatest, decide_eq_true (by omega)⟩
  · rw [hrows] at hr
    exact hunique r (List.mem_filter.1 hr).1 hle

end Db

/-! ### The section -/

variable {s : RoomState} {store : Store} {u : Uuid} {pubkey : PubKey} {manifest : MediaManifest}
  {clockMs : ℤ} {crates : Crates}

/-- The query of the latest row. -/
lemma Store.query_ok {α : Type} {read : Db → α} {a : α} {store' : Store}
    (h : store.query read = (.ok a, store')) : a = read store.db ∧ store'.db = store.db := by
  unfold Store.query at h
  split at h <;> cases h
  exact ⟨rfl, rfl⟩

/-- **The cases of a publication**: it is refused and stores nothing, or it inserts a row with the
next version, prunes the older ones, and the row is what it goes on to cache. -/
lemma manifestPublishLocked_cases (crates : Crates) (s : RoomState) (store : Store) (u : Uuid)
    (pubkey : PubKey) (manifest : MediaManifest) (clockMs : ℤ) :
    (∃ e store', manifestPublishLocked crates s store u pubkey manifest clockMs =
        (.error e, store') ∧ store'.db = store.db) ∨
      ∃ row store', manifestPublishLocked crates s store u pubkey manifest clockMs =
          (.ok row.cached, (Store.exec store' (.pruneRoomManifests s.id manifestVersionsKept)).2) ∧
        store.db.exec (.insertRoomManifest s.id row) = .ok store'.db ∧
        row.version = store.db.topVersion s.id + 1 ∧ row.manifest = manifest ∧
          row.hostUserId = u := by
  unfold manifestPublishLocked
  split
  · exact .inl ⟨_, _, rfl, rfl⟩
  split
  · exact .inl ⟨_, _, rfl, rfl⟩
  split
  · exact .inl ⟨_, _, rfl, rfl⟩
  rename_i hash hhash
  have hq := Store.query_db store fun db => db.latestRoomManifest s.id
  split
  · rename_i e store₁ hquery
    rw [hquery] at hq
    exact .inl ⟨_, _, rfl, hq⟩
  rename_i latest store₁ hquery
  rw [hquery] at hq
  obtain rfl := (Store.query_ok hquery).1
  have htop : store.db.topVersion s.id =
    ((store.db.latestRoomManifest s.id).map (·.version)).getD 0 := rfl
  cases hlatest : store.db.latestRoomManifest s.id
  all_goals
    dsimp only at hq ⊢
    split
    · rename_i e store₂ he
      rcases Store.exec_cases he with ⟨-, hdb⟩ | ⟨hok, -⟩
      · exact .inl ⟨_, _, rfl, hdb.trans hq⟩
      · cases hok
    · rename_i store₂ he
      rcases Store.exec_cases he with ⟨⟨e, hok⟩, -⟩ | ⟨-, hdb⟩
      · cases hok
      · exact .inr ⟨_, store₂, rfl, hq ▸ hdb, by rw [htop, hlatest]; rfl, rfl, rfl⟩

/-- **The row of a publication is the latest.** -/
lemma latest_published {row : RoomManifestRow} {store' : Store} {R : Uuid}
    (hversion : row.version = store.db.topVersion R + 1)
    (h : store.db.exec (.insertRoomManifest R row) = .ok store'.db) :
    (Store.exec store' (.pruneRoomManifests R manifestVersionsKept)).2.db.latestRoomManifest R =
      some row := by
  have habove : ∀ r ∈ store.db.rowsOf R, r.version < row.version := by
    intro r hr
    have := Db.version_le_top store.db R r hr
    omega
  have hlatest := Db.latest_insert habove h
  have hunique : ∀ r ∈ store'.db.rowsOf R, row.version ≤ r.version → r = row := by
    intro r hr hle
    rw [Db.insertRoomManifest_rows h] at hr
    rcases List.mem_append.1 hr with hr | hr
    · exact absurd (habove r hr) (not_lt.2 hle)
    · exact List.mem_singleton.1 hr
  exact Store.exec_keeps (fun db' h => Db.latest_prune (by decide) hlatest hunique h) hlatest

/-! ### Sections -/

/-- What a section publishes. -/
def Section.published : (sec : Section) → sec.Reply → Option CachedManifest
  | .manifestPublish .., .ok c => some c
  | _, _ => none

/-- The items that carry a manifest or a piece of one. -/
def WirePayload.isManifest : WirePayload → Bool
  | .manifestPublished _ | .manifestPart _ => true
  | _ => false

/-- The items of a publication in the room `R`. -/
def CachedManifest.wireItems (split : SplitForWire) (R : Uuid) (c : CachedManifest) :
    List BroadcastItem :=
  (publishEvent split R 0 (c.event R)).2

lemma publishEvents_manifest (split : SplitForWire) (R : Uuid) (c : CachedManifest) :
    publishEvents split R [c.event R] = (c.wireItems split R).map fun item => (R, item) := by
  simp only [publishEvents, List.flatMap_cons, List.flatMap_nil, List.append_nil,
    (publishEvent_spec _ _ _ _).1]
  rfl

lemma wireItems_isManifest {split : SplitForWire} {R : Uuid} {c : CachedManifest} :
    ∀ item ∈ c.wireItems split R, item.payload.isManifest = true := by
  intro item hi
  rcases (publishEvent_spec split R 0 (c.event R)).2 with ⟨it, h, hpay⟩ | ⟨-, h⟩
  · rw [CachedManifest.wireItems, h, List.mem_singleton] at hi
    rw [hi, hpay]
    rfl
  · obtain ⟨part, hpay⟩ := h item hi
    rw [hpay]
    rfl

/-- **What a section does to the manifests of its room.** -/
structure Section.Manifests (env : SectionEnv) (store : Store) (s : RoomState) (sec : Section)
    (out : SectionOutcome sec.Reply) : Prop where
  held : out.held = (sec.published out.reply).isSome
  latest : (out.store.db.latestRoomManifest s.id).map RoomManifestRow.cached =
    (sec.published out.reply).or ((store.db.latestRoomManifest s.id).map RoomManifestRow.cached)
  version : ∀ c, sec.published out.reply = some c → c.version = store.db.topVersion s.id + 1
  hosted : ∀ c, sec.published out.reply = some c →
    s.state ≠ .ended ∧ ∃ pubkey, s.isPublishingHost c.hostUserId pubkey = true

/-- No section sends a manifest. -/
lemma Section.sends_isManifest {sec : Section} {p : WirePayload} (h : sec.sends p = true) :
    p.isManifest = false := by
  cases p with
  | manifestPublished | manifestPart => cases sec <;> cases h
  | _ => rfl

/-- A section that is no publication. -/
lemma Section.Manifests.of_other {env : SectionEnv} {sec : Section}
    {out : SectionOutcome sec.Reply} (h : sec.run env store s = some out)
    (hne : ∀ u pubkey m, sec ≠ .manifestPublish u pubkey m) (hheld : out.held = false) :
    Section.Manifests env store s sec out := by
  have hpub : sec.published out.reply = none := by
    cases sec <;> first | rfl | exact absurd rfl (hne _ _ _)
  have hasks (request : StoreRequest) (ha : sec.asks s.id request) :
      request.isManifest = false := by
    cases sec <;> cases request <;> first | rfl | exact ha.elim | exact absurd rfl (hne _ _ _)
  have hdb : out.store.db.manifests = store.db.manifests :=
    Section.run_db (P := fun db => db.manifests = store.db.manifests) h
      (fun request db db' ha hdb he => (Db.exec_manifests he (hasks request ha)).trans hdb) rfl
  refine ⟨by rw [hheld, hpub]; rfl, ?_, fun c hc => (by simp [hpub] at hc),
    fun c hc => (by simp [hpub] at hc)⟩
  rw [hpub, Db.latest_congr (congrArg (·.get s.id) hdb)]
  rfl

/-- A section leaves the manifests of other rooms alone. -/
lemma Section.run_otherManifests {env : SectionEnv} {sec : Section} {out : SectionOutcome sec.Reply}
    (h : sec.run env store s = some out) {R : Uuid} (hne : R ≠ s.id) :
    out.store.db.latestRoomManifest R = store.db.latestRoomManifest R :=
  Db.latest_congr (Section.run_sameRows h hne).manifests

/-- **What a section does to the manifests of its room**: it stores the next version and keeps the
lock, or it leaves them alone. -/
theorem Section.run_manifests {env : SectionEnv} {sec : Section} {out : SectionOutcome sec.Reply}
    (h : sec.run env store s = some out) : Section.Manifests env store s sec out := by
  cases sec with
  | manifestPublish u pubkey manifest =>
    simp only [Section.run] at h
    rcases manifestPublishLocked_cases env.crates s store u pubkey manifest env.clockMs with
      ⟨e, store', hp, hdb⟩ | ⟨row, store', hp, hinsert, hversion, -, hhost⟩
    · rw [hp] at h
      cases h
      refine ⟨rfl, ?_, fun c hc => (by cases hc), fun c hc => (by cases hc)⟩
      change (store'.db.latestRoomManifest s.id).map _ = _
      rw [hdb]
      rfl
    · obtain ⟨hopen, hpublishing, -⟩ := manifestPublishLocked_spec (by rw [hp])
      rw [hp] at h
      cases h
      refine ⟨rfl, ?_, fun c hc => ?_, fun c hc => ?_⟩
      · rw [latest_published hversion hinsert]
        rfl
      · cases hc
        exact hversion
      · cases hc
        refine ⟨hopen, pubkey, ?_⟩
        change s.isPublishingHost row.hostUserId pubkey = true
        rw [hhost]
        exact hpublishing
  | join | strokeBegin | strokePoint | strokeEnd | strokeUndo =>
    refine .of_other h (fun _ _ _ hsec => by cases hsec) ?_
    obtain ⟨_, -, rfl⟩ := Option.map_eq_some_iff.1 h
    rfl
  | leave =>
    refine .of_other h (fun _ _ _ hsec => by cases hsec) ?_
    simp only [Section.run] at h
    split at h <;> cases h <;> rfl
  | _ =>
    refine .of_other h (fun _ _ _ hsec => by cases hsec) ?_
    cases h
    rfl

end Locast.Rooms
