import Locast.Client.ManifestCache

/-!
# Calls of `accept_manifest` at once

What one call may do after what it has done, what every run of any calls keeps from that, and when
the cache keeps its promise: the versions and the manifests are written in two sections, so it does
exactly where one manifest is accepted for each room.
-/

namespace Locast.Client

open Locast.Lib Locast.Protocol

/-! ### One call -/

section Call

variable (m : MediaManifest) (version publishedAtMs : ℤ) (room : Uuid) (key : PubKey)

/-- What a call has done once its manifest is trusted, its version claimed, and its manifest
cached. -/
def trustedPast : List ((e : CacheEffect) × e.Reply) := [⟨.readAnchor, some key⟩]

def claimedPast : List ((e : CacheEffect) × e.Reply) :=
  trustedPast key ++ [⟨.claimVersion room version, none⟩]

def cachedPast : List ((e : CacheEffect) × e.Reply) :=
  claimedPast version room key ++ [⟨.cache room m, ()⟩]

/-- The row of a call. -/
def rowOf : ManifestRow := ⟨room, publishedAtMs, m.media, m.subtitles, version⟩

end Call

/-- What a call may do after what it has done. -/
def mayAccept (crates : ClientCrates) :
    CacheOp → List ((e : CacheEffect) × e.Reply) → CacheEffect → Prop
  | .anchor key, _, e => e = .setAnchor key
  | .accept m version publishedAtMs, done, e =>
    match e with
    | .readAnchor => done = []
    | .setAnchor _ => False
    | .claimVersion room v =>
      v = version ∧ ∃ key, crates.examine m = .ok (room, key) ∧ done = trustedPast key
    | .cache room m' =>
      m' = m ∧ ∃ key, crates.examine m = .ok (room, key) ∧ done = claimedPast version room key
    | .persist row => ∃ room key, crates.examine m = .ok (room, key) ∧
      row = rowOf m version publishedAtMs room ∧ done = cachedPast m version room key
    | .emit _ => True

/-- A call that claimed its version has cached and written its manifest when it is over. -/
def acceptEnds : CacheOp → Except ManifestAcceptError Uuid →
    List ((e : CacheEffect) × e.Reply) → Prop
  | .anchor _, _, _ => True
  | .accept m version publishedAtMs, _, done => ∀ room v, ⟨.claimVersion room v, none⟩ ∈ done →
    ⟨.cache room m, ()⟩ ∈ done ∧ ⟨.persist (rowOf m version publishedAtMs room), ()⟩ ∈ done

variable {crates : ClientCrates}

/-- **One call**, whatever it is answered. -/
lemma program_spec (op : CacheOp) :
    ((cacheSystem crates).program op).Sat (.past (mayAccept crates op) fun _ _ => True)
      (acceptEnds op) [] := by
  cases op with
  | anchor key => exact ⟨rfl, fun _ _ => trivial⟩
  | accept m version publishedAtMs =>
    simp only [cacheSystem, acceptManifest]
    cases hexamine : crates.examine m with
    | error e => exact fun room v hv => absurd hv List.not_mem_nil
    | ok found =>
      obtain ⟨room, key⟩ := found
      refine Prog.Sat.step rfl fun anchor _ => ?_
      cases hvouch : crates.vouch anchor m key with
      | error e =>
        dsimp only
        intro room v hv
        cases List.mem_singleton.1 hv
      | ok hash =>
        obtain rfl := vouch_eq_ok hvouch
        dsimp only
        refine Prog.Sat.step ⟨rfl, key, hexamine, rfl⟩ fun stale _ => ?_
        cases stale with
        | some cached =>
          intro room' v hv
          change _ ∈ [_, _] at hv
          rcases List.mem_pair.1 hv with hv | hv <;> cases hv
        | none =>
          refine Prog.Sat.step ⟨rfl, key, hexamine, rfl⟩ fun _ _ =>
            Prog.Sat.step ⟨room, key, hexamine, rfl, rfl⟩ fun _ _ =>
              Prog.Sat.step trivial fun _ _ => ?_
          intro room' v hv
          change _ ∈ [_, _, _, _, _] at hv
          change _ ∈ [_, _, _, _, _] ∧ _ ∈ [_, _, _, _, _]
          simp only [List.mem_cons, List.not_mem_nil, or_false] at hv ⊢
          rcases hv with hv | hv | hv | hv | hv <;> cases hv
          exact ⟨.inr (.inr (.inl rfl)), .inr (.inr (.inr (.inl rfl)))⟩

variable {table : ManifestTable} {h : CacheHistory}
  {p : Pool CacheEffect.Reply CacheOp (Except ManifestAcceptError Uuid) ManifestCache}

/-- Any interleaving of the calls. -/
abbrev CacheRun (crates : ClientCrates) (table : ManifestTable) (h : CacheHistory)
    (p : Pool CacheEffect.Reply CacheOp (Except ManifestAcceptError Uuid) ManifestCache) : Prop :=
  (cacheSystem crates).Run (fun _ _ => True) (.fresh table) h p

/-! ### The table -/

section Table

variable {t : ManifestTable} {row : ManifestRow} {room : Uuid}

lemma ManifestTable.taken_iff {version : ℤ} :
    t.taken room version = true ↔ ∃ row ∈ t.rows, row.roomId = room ∧ row.version = version := by
  simp [taken]

lemma ManifestTable.mem_upsert {row' : ManifestRow} (h : row' ∈ (t.upsert row).rows) :
    row' ∈ t.rows ∨ row' = row := by
  unfold upsert at h
  split at h
  · simpa using h
  · exact .inl h

lemma ManifestTable.subset_upsert {row' : ManifestRow} (h : row' ∈ t.rows) :
    row' ∈ (t.upsert row).rows := by
  unfold upsert
  split
  · exact List.mem_append_left _ h
  · exact h

lemma ManifestTable.taken_upsert : (t.upsert row).taken row.roomId row.version = true := by
  unfold upsert
  split
  · exact taken_iff.2 ⟨row, by simp, rfl, rfl⟩
  · rename_i h
    simpa using h

/-- Two rows of one room and one version are one row. -/
lemma ManifestTable.eq_of_key {row' : ManifestRow} (h : row ∈ t.rows) (h' : row' ∈ t.rows)
    (hroom : row.roomId = row'.roomId) (hversion : row.version = row'.version) : row = row' :=
  List.inj_on_of_nodup_map t.unique h h' (Prod.ext hroom hversion)

/-- The latest row is one of the room's, and none of them is above it. -/
lemma ManifestTable.latest_spec (h : t.latest room = some row) :
    row ∈ t.rows ∧ row.roomId = room ∧
      ∀ row' ∈ t.rows, row'.roomId = room → row'.version ≤ row.version := by
  have hmem := List.mem_filter.1 (least_mem h)
  refine ⟨hmem.1, by simpa using hmem.2, fun row' hrow' hroom => ?_⟩
  have hirrefl (row : ManifestRow) : decide (row.version < row.version) = false := by simp
  have hnot := not_before_least hirrefl (by simp; omega) h row'
    (List.mem_filter.2 ⟨hrow', by simpa using hroom⟩)
  simpa using hnot

lemma ManifestTable.exists_latest (h : row ∈ t.rows) : ∃ row', t.latest row.roomId = some row' := by
  rw [← Option.isSome_iff_exists, Option.isSome_iff_ne_none, latest, Ne, least_eq_none]
  exact List.ne_nil_of_mem (List.mem_filter.2 ⟨h, by simp⟩)

end Table

/-! ### Runs -/

lemma accepted_append (h l : CacheHistory) {room : Uuid} {version : ℤ} {m : MediaManifest}
    (ha : Accepted h room version m) : Accepted (h ++ l) room version m := by
  obtain ⟨d, hd, rest⟩ := ha
  exact ⟨d, List.mem_append_left _ hd, rest⟩

lemma anchored_append (h l : CacheHistory) {m : MediaManifest} (ha : Anchored crates h m) :
    Anchored crates (h ++ l) m := by
  obtain ⟨key, hkey, d, hd, rest⟩ := ha
  exact ⟨key, hkey, d, List.mem_append_left _ hd, rest⟩

/-- What is accepted with a step is accepted before it, or claimed by it. -/
lemma accepted_snoc {d : Did CacheEffect.Reply CacheOp ManifestCache Disk} {room : Uuid}
    {version : ℤ} {m : MediaManifest} (ha : Accepted (h ++ [d]) room version m) :
    Accepted h room version m ∨ System.Did.record d = ⟨.claimVersion room version, none⟩ := by
  obtain ⟨d', hd', ts, hop, hrecord⟩ := ha
  rcases List.mem_append.1 hd' with hd' | hd'
  · exact .inl ⟨d', hd', ts, hop, hrecord⟩
  · obtain rfl := List.mem_singleton.1 hd'
    exact .inr hrecord

/-- Every step of a run does what its call may do by then, and the call's past is in the history. -/
lemma CacheRun.step (r : CacheRun crates table h p) {pre post : CacheHistory}
    {d : Did CacheEffect.Reply CacheOp ManifestCache Disk} (hh : h = pre ++ d :: post) :
    ∃ done, System.Recorded pre d.op done ∧ mayAccept crates d.op done d.effect := by
  obtain ⟨done, hrec, -, hmay⟩ :=
    (r.recalls (fun op => program_spec op) fun _ _ => trivial).1 pre d post hh
  exact ⟨done, hrec, hmay⟩

/-- A manifest that is cached was trusted and claimed. -/
lemma cache_spec {pre : CacheHistory} {op : CacheOp} {done : List ((e : CacheEffect) × e.Reply)}
    {room : Uuid} {m : MediaManifest} (hrec : System.Recorded pre op done)
    (hmay : mayAccept crates op done (.cache room m)) :
    (∃ version, Accepted pre room version m) ∧ crates.parseUuid m.roomId = .ok room ∧
      Anchored crates pre m := by
  cases op with
  | anchor key => cases hmay
  | accept m' version ts =>
    obtain ⟨rfl, key, hexamine, rfl⟩ := hmay
    obtain ⟨hroom, hsigned⟩ := examine_spec hexamine
    obtain ⟨d, hd, hop, hclaim⟩ := hrec.mem (x := ⟨.claimVersion room version, none⟩)
      (by simp [claimedPast])
    obtain ⟨d', hd', hop', hanchor⟩ := hrec.mem (x := ⟨.readAnchor, some key⟩)
      (by simp [claimedPast, trustedPast])
    exact ⟨⟨version, d, hd, ts, hop, hclaim⟩, hroom, key, hsigned, d', hd', version, ts,
      hop', hanchor⟩

/-- A row that is written is of what is accepted. -/
lemma persist_spec {pre : CacheHistory} {op : CacheOp} {done : List ((e : CacheEffect) × e.Reply)}
    {row : ManifestRow} (hrec : System.Recorded pre op done)
    (hmay : mayAccept crates op done (.persist row)) :
    ∃ m, Accepted pre row.roomId row.version m ∧ row.media = m.media ∧
      row.subtitles = m.subtitles := by
  cases op with
  | anchor key => cases hmay
  | accept m version ts =>
    obtain ⟨room, key, hexamine, rfl, rfl⟩ := hmay
    obtain ⟨d, hd, hop, hclaim⟩ := hrec.mem (x := ⟨.claimVersion room version, none⟩)
      (by simp [cachedPast, claimedPast])
    exact ⟨m, ⟨d, hd, ts, hop, hclaim⟩, rfl, rfl⟩

/-- A version that is claimed is the call's. -/
lemma claim_spec {d : Did CacheEffect.Reply CacheOp ManifestCache Disk}
    {done : List ((e : CacheEffect) × e.Reply)} {room : Uuid} {version : ℤ}
    (hmay : mayAccept crates d.op done d.effect)
    (hclaim : System.Did.record d = ⟨.claimVersion room version, none⟩) (h : CacheHistory) :
    ∃ m, Accepted (h ++ [d]) room version m := by
  obtain ⟨op, e, inp, resp, before, after⟩ := d
  cases hclaim
  cases op with
  | anchor key => cases hmay
  | accept m version' ts =>
    obtain ⟨rfl, -⟩ := hmay
    exact ⟨m, _, List.mem_append_right _ (List.mem_singleton_self _), ts, rfl, rfl⟩

/-- **What every run keeps**, whatever is accepted. -/
structure CacheInv (crates : ClientCrates) (table : ManifestTable) (h : CacheHistory)
    (s : ManifestCache) : Prop where
  claimed : ∀ room version, s.currentVersions.get room = some version →
    ∃ m, Accepted h room version m
  bounded : ∀ room version m, Accepted h room version m →
    ∃ version', s.currentVersions.get room = some version' ∧ version ≤ version'
  cached : ∀ room m, s.verifiedManifests.get room = some m →
    (∃ version, Accepted h room version m) ∧ crates.parseUuid m.roomId = .ok room ∧
      Anchored crates h m
  older : ∀ row ∈ table.rows, row ∈ s.table.rows
  written : ∀ row ∈ s.table.rows, row ∈ table.rows ∨
    (∃ d ∈ h, d.inp = .up ∧ d.effect = .persist row) ∧ ∃ m, Accepted h row.roomId row.version m ∧
      row.media = m.media ∧ row.subtitles = m.subtitles
  stored : ∀ d ∈ h, d.inp = .up → ∀ row, d.effect = .persist row →
    s.table.taken row.roomId row.version = true

/-- A step that claims nothing and keeps the versions, with a manifest cached only if it may be. -/
lemma CacheInv.keep {s s' : ManifestCache} {d : Did CacheEffect.Reply CacheOp ManifestCache Disk}
    (hi : CacheInv crates table h s)
    (hclaim : ∀ room version, System.Did.record d ≠ ⟨.claimVersion room version, none⟩)
    (hversions : s'.currentVersions = s.currentVersions)
    (hcached : ∀ room m, s'.verifiedManifests.get room = some m →
      s.verifiedManifests.get room = some m ∨ (∃ version, Accepted h room version m) ∧
        crates.parseUuid m.roomId = .ok room ∧ Anchored crates h m)
    (htable : s'.table = s.table ∧ (∀ row, d.inp = .up → d.effect ≠ .persist row)) :
    CacheInv crates table (h ++ [d]) s' where
  claimed room version hv := by
    rw [hversions] at hv
    obtain ⟨m, hm⟩ := hi.claimed room version hv
    exact ⟨m, accepted_append h [d] hm⟩
  bounded room version m ha := by
    rw [hversions]
    exact hi.bounded room version m ((accepted_snoc ha).resolve_right (hclaim room version))
  cached room m hm := by
    obtain ⟨⟨version, hv⟩, hroom, hsigned⟩ := (hcached room m hm).elim (hi.cached room m) id
    exact ⟨⟨version, accepted_append h [d] hv⟩, hroom, anchored_append h [d] hsigned⟩
  older row hrow := by
    rw [htable.1]
    exact hi.older row hrow
  written row hrow := by
    rw [htable.1] at hrow
    refine (hi.written row hrow).imp_right ?_
    rintro ⟨⟨d', hd', rest⟩, m, hm, hcontent⟩
    exact ⟨⟨d', List.mem_append_left _ hd', rest⟩, m, accepted_append h [d] hm, hcontent⟩
  stored d' hd' hup row hrow := by
    rw [htable.1]
    rcases List.mem_append.1 hd' with hd' | hd'
    · exact hi.stored d' hd' hup row hrow
    · obtain rfl := List.mem_singleton.1 hd'
      exact absurd hrow (htable.2 row hup)

/-- A claim that is granted raises the version of its room. -/
lemma CacheInv.claim {s : ManifestCache} {d : Did CacheEffect.Reply CacheOp ManifestCache Disk}
    {room : Uuid} {version : ℤ} (hi : CacheInv crates table h s)
    (hrecord : System.Did.record d = ⟨.claimVersion room version, none⟩)
    (hclaim : ∃ m, Accepted (h ++ [d]) room version m)
    (hle : ∀ prev, s.currentVersions.get room = some prev → prev ≤ version) :
    CacheInv crates table (h ++ [d])
      { s with currentVersions := s.currentVersions.insert room version } := by
  have heffect : d.effect = .claimVersion room version := congrArg Sigma.fst hrecord
  refine ⟨fun room' version' hv => ?_, fun room' version' m ha => ?_, fun room' m hm => ?_,
    hi.older, fun row hrow => ?_, fun d' hd' hup row hrow => ?_⟩
  · simp only [AList.get_insert] at hv
    split at hv
    · rename_i heq
      obtain rfl := Option.some.inj hv
      exact heq ▸ hclaim
    · obtain ⟨m, hm⟩ := hi.claimed room' version' hv
      exact ⟨m, accepted_append h [d] hm⟩
  · simp only [AList.get_insert]
    rcases accepted_snoc ha with ha | heq
    · obtain ⟨prev, hprev, hle'⟩ := hi.bounded room' version' m ha
      split
      · rename_i hroom
        exact ⟨version, rfl, hle'.trans (hle prev (hroom ▸ hprev))⟩
      · exact ⟨prev, hprev, hle'⟩
    · rw [hrecord] at heq
      cases heq
      exact ⟨version, if_pos rfl, le_rfl⟩
  · obtain ⟨⟨v, hv⟩, hroom, hsigned⟩ := hi.cached room' m hm
    exact ⟨⟨v, accepted_append h [d] hv⟩, hroom, anchored_append h [d] hsigned⟩
  · refine (hi.written row hrow).imp_right ?_
    rintro ⟨⟨d', hd', rest⟩, m, hm, hcontent⟩
    exact ⟨⟨d', List.mem_append_left _ hd', rest⟩, m, accepted_append h [d] hm, hcontent⟩
  · rcases List.mem_append.1 hd' with hd' | hd'
    · exact hi.stored d' hd' hup row hrow
    · obtain rfl := List.mem_singleton.1 hd'
      rw [heffect] at hrow
      cases hrow

/-- A row that is written is of what was accepted, and does not replace one. -/
lemma CacheInv.persist {s : ManifestCache} {d : Did CacheEffect.Reply CacheOp ManifestCache Disk}
    {row : ManifestRow} (hi : CacheInv crates table h s) (heffect : d.effect = .persist row)
    (hup : d.inp = .up) (hrow : ∃ m, Accepted h row.roomId row.version m ∧ row.media = m.media ∧
      row.subtitles = m.subtitles) :
    CacheInv crates table (h ++ [d]) { s with table := s.table.upsert row } := by
  have hclaim (room : Uuid) (version : ℤ) :
      System.Did.record d ≠ ⟨.claimVersion room version, none⟩ := by
    intro heq
    have := congrArg Sigma.fst heq
    rw [show (System.Did.record d).1 = d.effect from rfl, heffect] at this
    cases this
  refine ⟨fun room version hv => ?_, fun room version m ha => ?_, fun room m hm => ?_,
    fun row' hrow' => ManifestTable.subset_upsert (hi.older row' hrow'), fun row' hrow' => ?_,
    fun d' hd' hup' row' heffect' => ?_⟩
  · obtain ⟨m, hm⟩ := hi.claimed room version hv
    exact ⟨m, accepted_append h [d] hm⟩
  · exact hi.bounded room version m ((accepted_snoc ha).resolve_right (hclaim room version))
  · obtain ⟨⟨v, hv⟩, hroom, hsigned⟩ := hi.cached room m hm
    exact ⟨⟨v, accepted_append h [d] hv⟩, hroom, anchored_append h [d] hsigned⟩
  · rcases ManifestTable.mem_upsert hrow' with hrow' | rfl
    · refine (hi.written row' hrow').imp_right ?_
      rintro ⟨⟨d', hd', rest⟩, m, hm, hcontent⟩
      exact ⟨⟨d', List.mem_append_left _ hd', rest⟩, m, accepted_append h [d] hm, hcontent⟩
    · obtain ⟨m, hm, hcontent⟩ := hrow
      exact .inr ⟨⟨d, by simp, hup, heffect⟩, m, accepted_append h [d] hm, hcontent⟩
  · rcases List.mem_append.1 hd' with hd' | hd'
    · obtain ⟨r, hr, hroom, hversion⟩ :=
        ManifestTable.taken_iff.1 (hi.stored d' hd' hup' row' heffect')
      exact ManifestTable.taken_iff.2 ⟨r, ManifestTable.subset_upsert hr, hroom, hversion⟩
    · obtain rfl := List.mem_singleton.1 hd'
      rw [heffect] at heffect'
      cases heffect'
      exact ManifestTable.taken_upsert

/-- **The invariant of every run.** -/
theorem cacheInv (r : CacheRun crates table h p) : CacheInv crates table h p.state := by
  refine r.history_invariant (CacheInv crates table) ?_ ?_
  · refine ⟨fun room v hv => ?_, fun room v m ha => ?_, fun room m hm => ?_, fun row hrow => hrow,
      fun row hrow => .inl hrow, fun d hd => absurd hd List.not_mem_nil⟩
    · cases hv
    · obtain ⟨d, hd, -⟩ := ha
      cases hd
    · cases hm
  · intro h p d p' r r' hbefore hafter hhandled hi
    obtain ⟨done, hrec, hmay⟩ := CacheRun.step r' (rfl : h ++ [d] = h ++ d :: [])
    have hclaim' (room : Uuid) (version : ℤ) := @claim_spec _ _ _ room version hmay
    obtain ⟨op, e, inp, resp, before, after⟩ := d
    dsimp only at hi hmay hrec ⊢
    change CacheEffect.handle e inp before = some (resp, after) at hhandled
    cases e with
    | readAnchor =>
      cases hhandled
      exact hi.keep (by rintro _ _ ⟨⟩) rfl (fun _ _ => .inl) ⟨rfl, by rintro _ _ ⟨⟩⟩
    | setAnchor key =>
      cases hhandled
      exact hi.keep (by rintro _ _ ⟨⟩) rfl (fun _ _ => .inl) ⟨rfl, by rintro _ _ ⟨⟩⟩
    | claimVersion room version =>
      simp only [CacheEffect.handle] at hhandled
      split at hhandled
      · rename_i prev hprev
        split at hhandled
        · cases hhandled
          exact hi.keep (by rintro _ _ ⟨⟩) rfl (fun _ _ => .inl) ⟨rfl, by rintro _ _ ⟨⟩⟩
        · rename_i hle
          cases hhandled
          refine hi.claim rfl (hclaim' room version rfl h) fun prev' hprev' => ?_
          obtain rfl := Option.some.inj (hprev.symm.trans hprev')
          exact not_lt.1 hle
      · rename_i hnone
        cases hhandled
        refine hi.claim rfl (hclaim' room version rfl h) fun prev' hprev' => ?_
        cases hnone.symm.trans hprev'
    | cache room m =>
      cases hhandled
      have hspec := cache_spec hrec hmay
      refine hi.keep (by rintro _ _ ⟨⟩) rfl (fun room' m' hm => ?_) ⟨rfl, by rintro _ _ ⟨⟩⟩
      simp only [AList.get_insert] at hm
      split at hm
      · rename_i heq
        obtain rfl := Option.some.inj hm
        exact .inr (heq ▸ hspec)
      · exact .inl hm
    | persist row =>
      cases inp with
      | up =>
        cases hhandled
        exact hi.persist rfl rfl (persist_spec hrec hmay)
      | down =>
        cases hhandled
        exact hi.keep (by rintro _ _ ⟨⟩) rfl (fun _ _ => .inl) ⟨rfl, by rintro _ ⟨⟩⟩
    | emit ev =>
      cases hhandled
      exact hi.keep (by rintro _ _ ⟨⟩) rfl (fun _ _ => .inl) ⟨rfl, by rintro _ _ ⟨⟩⟩

/-- No claim takes a version back. -/
lemma versionsGrow (r : CacheRun crates table h p) : VersionsGrow h := by
  intro d hd room version hv
  obtain ⟨hhandled, -⟩ := r.before d hd
  obtain ⟨op, e, inp, resp, before, after⟩ := d
  change CacheEffect.handle e inp before = some (resp, after) at hhandled
  dsimp only at hv ⊢
  cases e with
  | claimVersion room' version' =>
    simp only [CacheEffect.handle] at hhandled
    split at hhandled
    · rename_i prev hprev
      split at hhandled
      · cases hhandled
        exact ⟨version, hv, le_rfl⟩
      · rename_i hle
        cases hhandled
        simp only [AList.get_insert]
        split
        · rename_i heq
          subst heq
          obtain rfl := Option.some.inj (hprev.symm.trans hv)
          exact ⟨version', rfl, not_lt.1 hle⟩
        · exact ⟨version, hv, le_rfl⟩
    · rename_i hnone
      cases hhandled
      simp only [AList.get_insert]
      split
      · rename_i heq
        subst heq
        cases hnone.symm.trans hv
      · exact ⟨version, hv, le_rfl⟩
  | persist row =>
    cases inp <;> cases hhandled <;> exact ⟨version, hv, le_rfl⟩
  | readAnchor => cases hhandled; exact ⟨version, hv, le_rfl⟩
  | setAnchor key => cases hhandled; exact ⟨version, hv, le_rfl⟩
  | cache room' m => cases hhandled; exact ⟨version, hv, le_rfl⟩
  | emit ev => cases hhandled; exact ⟨version, hv, le_rfl⟩

/-- Where one manifest is accepted for a room, the sections cannot come apart. -/
lemma CacheInv.faithful {s : ManifestCache} (hi : CacheInv crates table h s)
    (hone : OneManifest h) :
    CacheFaithful crates h s where
  versioned room m hm := by
    obtain ⟨⟨version, hv⟩, -⟩ := hi.cached room m hm
    obtain ⟨version', hversion', -⟩ := hi.bounded room version m hv
    obtain ⟨m', hm'⟩ := hi.claimed room version' hversion'
    obtain rfl := hone room version' version m' m hm' hv
    exact ⟨version', hversion', hm'⟩
  one room version m m' ha ha' := hone room version version m m' ha ha'
  signed room m hm := (hi.cached room m hm).2

lemma OneManifest.of_append {pre l : CacheHistory} (h : OneManifest (pre ++ l)) : OneManifest pre :=
  fun room v v' m m' ha ha' => h room v v' m m' (accepted_append pre l ha)
    (accepted_append pre l ha')

lemma throughout_faithful (r : CacheRun crates table h p) (hone : OneManifest h) :
    Throughout (CacheFaithful crates) h p.state := by
  refine ⟨fun pre d post hh => ?_, (cacheInv r).faithful hone⟩
  obtain ⟨-, -, p', r', hbefore⟩ := r.split hh
  rw [← hbefore]
  exact (cacheInv r').faithful (OneManifest.of_append (hh ▸ hone))

/-- When the calls are over, what was accepted was cached and handed to the database. -/
lemma cached_of_accepted (r : CacheRun crates table h p) (hquiet : p.quiet) {room : Uuid}
    {version : ℤ} {m : MediaManifest} (ha : Accepted h room version m) :
    (∃ d ∈ h, d.effect = .cache room m) ∧
      ∃ d ∈ h, ∃ ts, d.effect = .persist (rowOf m version ts room) := by
  obtain ⟨d, hd, ts, hop, hrecord⟩ := ha
  obtain ⟨t, ht, htop, hdone⟩ := r.task_of_mem d hd
  obtain ⟨hrec, -, hsat⟩ := (r.recalls (fun op => program_spec op) fun _ _ => trivial).2 t ht
  obtain ⟨result, hresult⟩ := Option.isSome_iff_exists.1 (hquiet t ht)
  have hends := System.sat_of_result hsat hresult
  rw [htop, hop] at hends
  obtain ⟨hcache, hpersist⟩ := hends room version (hrecord ▸ hdone)
  obtain ⟨d', hd', -, hrecord'⟩ := hrec.mem hcache
  obtain ⟨d'', hd'', -, hrecord''⟩ := hrec.mem hpersist
  exact ⟨⟨d', hd', congrArg Sigma.fst hrecord'⟩, d'', hd'', ts, congrArg Sigma.fst hrecord''⟩

/-- While the cache is faithful, a room's manifest is never replaced by another. -/
lemma cached_of_faithful (r : CacheRun crates table h p)
    (hfaithful : Throughout (CacheFaithful crates) h p.state) :
    ∀ d ∈ h, ∀ room m, d.effect = .cache room m →
      p.state.verifiedManifests.get room = some m := by
  refine r.history_invariant (fun h s => Throughout (CacheFaithful crates) h s →
    ∀ d ∈ h, ∀ room m, d.effect = .cache room m → s.verifiedManifests.get room = some m)
    (fun _ d hd => absurd hd List.not_mem_nil) ?_ hfaithful
  intro h p d p' r r' hbefore hafter hhandled ih hall
  have hbeforeFaithful := hall.1 h d [] rfl
  have hold :=
    ih ⟨fun pre d' post hh => hall.1 pre d' (post ++ [d]) (by simp [hh]), hbeforeFaithful⟩
  have hafterFaithful := hall.2
  obtain ⟨op, e, inp, resp, before, after⟩ := d
  change CacheEffect.handle e inp before = some (resp, after) at hhandled
  dsimp only at hold hafterFaithful hbeforeFaithful ⊢
  by_cases hcache : ∃ room m, e = .cache room m
  · obtain ⟨room', m', rfl⟩ := hcache
    cases hhandled
    have hnew : ∀ room m, before.verifiedManifests.get room = some m → room = room' → m = m' := by
      rintro room m hm rfl
      obtain ⟨version, hversion, ha⟩ := hbeforeFaithful.versioned _ m hm
      obtain ⟨version', hversion', ha'⟩ := hafterFaithful.versioned _ m'
        (AList.get_insert_self _ _ _)
      obtain rfl := Option.some.inj (hversion.symm.trans hversion')
      exact hafterFaithful.one _ version m m' (accepted_append h _ ha) ha'
    intro d' hd' room m heffect
    rcases List.mem_append.1 hd' with hd' | hd'
    · have hm := hold d' hd' room m heffect
      simp only [AList.get_insert]
      split
      · rename_i heq
        rw [hnew room m hm heq]
      · exact hm
    · obtain rfl := List.mem_singleton.1 hd'
      cases heffect
      exact AList.get_insert_self _ _ _
  · have hkept : after.verifiedManifests = before.verifiedManifests := by
      cases e with
      | cache room m => exact absurd ⟨room, m, rfl⟩ hcache
      | claimVersion room version =>
        simp only [CacheEffect.handle] at hhandled
        split at hhandled
        · split at hhandled <;> cases hhandled <;> rfl
        · cases hhandled
          rfl
      | persist row => cases inp <;> cases hhandled <;> rfl
      | readAnchor => cases hhandled; rfl
      | setAnchor key => cases hhandled; rfl
      | emit ev => cases hhandled; rfl
    intro d' hd' room m heffect
    rw [hkept]
    rcases List.mem_append.1 hd' with hd' | hd'
    · exact hold d' hd' room m heffect
    · obtain rfl := List.mem_singleton.1 hd'
      exact absurd ⟨room, m, heffect⟩ hcache

/-- Where it is faithful throughout and the calls are over, one manifest was accepted for a room. -/
lemma oneManifest_of_faithful (r : CacheRun crates table h p) (hquiet : p.quiet)
    (hfaithful : Throughout (CacheFaithful crates) h p.state) : OneManifest h := by
  intro room version version' m m' ha ha'
  obtain ⟨⟨d, hd, heffect⟩, -⟩ := cached_of_accepted r hquiet ha
  obtain ⟨⟨d', hd', heffect'⟩, -⟩ := cached_of_accepted r hquiet ha'
  have hm := cached_of_faithful r hfaithful d hd room m heffect
  have hm' := cached_of_faithful r hfaithful d' hd' room m' heffect'
  exact Option.some.inj (hm.symm.trans hm')

/-! ### The row that is persisted -/

/-- A cached manifest is the one its version was accepted with, and no accepted version is above. -/
lemma CacheFaithful.top {s : ManifestCache} (hf : CacheFaithful crates h s)
    (hi : CacheInv crates table h s) {room : Uuid} {m : MediaManifest}
    (hm : s.verifiedManifests.get room = some m) :
    ∃ version, s.currentVersions.get room = some version ∧ Accepted h room version m ∧
      ∀ version' m', Accepted h room version' m' → version' ≤ version := by
  obtain ⟨version, hversion, ha⟩ := hf.versioned room m hm
  refine ⟨version, hversion, ha, fun version' m' ha' => ?_⟩
  obtain ⟨version'', hversion'', hle⟩ := hi.bounded room version' m' ha'
  obtain rfl := Option.some.inj (hversion.symm.trans hversion'')
  exact hle

lemma superseded_of_persisted (r : CacheRun crates table h p) (hquiet : p.quiet)
    (hone : OneManifest h) (hpersisted : Persisted p.state) : Superseded table h := by
  have hi := cacheInv r
  have hf := hi.faithful hone
  intro row hrow version m ha
  obtain ⟨⟨d, hd, heffect⟩, -⟩ := cached_of_accepted r hquiet ha
  have hm := cached_of_faithful r (throughout_faithful r hone) d hd _ m heffect
  obtain ⟨top, htop, hatop, -⟩ := hf.top hi hm
  obtain ⟨last, hlast, hversion, hmedia, hsubtitles⟩ := hpersisted _ m hm
  obtain rfl := Option.some.inj (htop.symm.trans hversion)
  obtain ⟨hmem, hroom, hmax⟩ := ManifestTable.latest_spec hlast
  refine ⟨last.version, hatop, (lt_or_eq_of_le (hmax row (hi.older row hrow) rfl)).imp_right ?_⟩
  intro heq
  obtain rfl := ManifestTable.eq_of_key (hi.older row hrow) hmem hroom.symm heq
  exact ⟨rfl, hmedia, hsubtitles⟩

lemma stored_of_persisted (r : CacheRun crates table h p) (hquiet : p.quiet)
    (hone : OneManifest h) (hpersisted : Persisted p.state) : Stored table h := by
  have hi := cacheInv r
  have hf := hi.faithful hone
  intro room version m ha
  obtain ⟨⟨d, hd, heffect⟩, -⟩ := cached_of_accepted r hquiet ha
  have hm := cached_of_faithful r (throughout_faithful r hone) d hd _ m heffect
  obtain ⟨top, htop, hatop, hle⟩ := hf.top hi hm
  obtain ⟨last, hlast, hversion, -⟩ := hpersisted _ m hm
  obtain rfl := Option.some.inj (htop.symm.trans hversion)
  obtain ⟨hmem, hroom, -⟩ := ManifestTable.latest_spec hlast
  refine ⟨last.version, m, hle version m ha, hatop, ?_⟩
  rcases hi.written last hmem with hold | ⟨⟨d', hd', hup, hwrite⟩, -⟩
  · exact .inr (ManifestTable.taken_iff.2 ⟨last, hold, hroom, rfl⟩)
  · exact .inl ⟨d', hd', hup, last, hwrite, hroom, rfl⟩

lemma persisted_of_stored (r : CacheRun crates table h p) (hone : OneManifest h)
    (hsuperseded : Superseded table h) (hstored : Stored table h) : Persisted p.state := by
  have hi := cacheInv r
  have hf := hi.faithful hone
  intro room m hm
  obtain ⟨top, htop, hatop, hmaximal⟩ := hf.top hi hm
  -- a row of the room and its highest version
  obtain ⟨row, hrow, hroom, hversion⟩ : ∃ row ∈ p.state.table.rows, row.roomId = room ∧
      row.version = top := by
    obtain ⟨version, m', hle, ha, hwhere⟩ := hstored room top m hatop
    obtain rfl : version = top := le_antisymm (hmaximal version m' ha) hle
    rcases hwhere with ⟨d, hd, hup, row, heffect, rfl, rfl⟩ | htaken
    · exact ManifestTable.taken_iff.1 (hi.stored d hd hup row heffect)
    · obtain ⟨row, hrow, hkey⟩ := ManifestTable.taken_iff.1 htaken
      exact ⟨row, hi.older row hrow, hkey⟩
  -- no row of the room is above it, and one that is as high says the same
  have hrows : ∀ row' ∈ p.state.table.rows, row'.roomId = room → row'.version < top ∨
      row'.version = top ∧ row'.media = m.media ∧ row'.subtitles = m.subtitles := by
    rintro row' hrow' rfl
    rcases hi.written row' hrow' with hold | ⟨-, m', ha', hmedia, hsubtitles⟩
    · obtain ⟨version, ha, hcase⟩ := hsuperseded row' hold top m hatop
      have hle := hmaximal version m ha
      rcases hcase with hlt | ⟨rfl, hcontent⟩
      · exact .inl (hlt.trans_le hle)
      · exact (lt_or_eq_of_le hle).imp_right fun heq => ⟨heq, hcontent⟩
    · obtain rfl := hone row'.roomId row'.version top m' m ha' hatop
      exact (lt_or_eq_of_le (hmaximal _ _ ha')).imp_right fun heq => ⟨heq, hmedia, hsubtitles⟩
  obtain ⟨last, hlast⟩ := ManifestTable.exists_latest hrow
  rw [hroom] at hlast
  obtain ⟨hmem, hlastRoom, hmax⟩ := ManifestTable.latest_spec hlast
  have hhigh : top ≤ last.version := hversion ▸ hmax row hrow hroom
  rcases hrows last hmem hlastRoom with hlt | ⟨rfl, hcontent⟩
  · exact absurd hhigh (not_le.2 hlt)
  · exact ⟨last, hlast, htop, hcontent⟩

/-- A database that takes every write has what was accepted. -/
lemma stored_of_up (r : CacheRun crates table h p) (hquiet : p.quiet) (hup : ∀ d ∈ h, d.inp = .up) :
    Stored table h := by
  intro room version m ha
  obtain ⟨-, d, hd, ts, heffect⟩ := cached_of_accepted r hquiet ha
  exact ⟨version, m, le_rfl, ha, .inl ⟨d, hd, hup d hd, _, heffect, rfl, rfl⟩⟩

/-- **The cache of verified manifests.**  In every run no version goes back.  Where what is accepted
for a room is one manifest, the cache keeps its promise throughout; and when the calls are over, it
has kept it and its rows agree exactly if that was so, no older row stands in the way and the
database took the write. -/
theorem manifest_cache_faithful (crates : ClientCrates) (table : ManifestTable)
    (r : CacheRun crates table h p) :
    VersionsGrow h ∧ (OneManifest h → Throughout (CacheFaithful crates) h p.state) ∧
      (p.quiet → (Throughout (CacheFaithful crates) h p.state ∧ Persisted p.state ↔
        OneManifest h ∧ Superseded table h ∧ Stored table h)) := by
  refine ⟨versionsGrow r, throughout_faithful r, fun hquiet => ⟨?_, ?_⟩⟩
  · rintro ⟨hfaithful, hpersisted⟩
    have hone := oneManifest_of_faithful r hquiet hfaithful
    exact ⟨hone, superseded_of_persisted r hquiet hone hpersisted,
      stored_of_persisted r hquiet hone hpersisted⟩
  · rintro ⟨hone, hsuperseded, hstored⟩
    exact ⟨throughout_faithful r hone, persisted_of_stored r hone hsuperseded hstored⟩

/-! ### Two calls at once -/

namespace CacheRace

/-- The host's key, and a client that knows one room and finds every signature of the key good. -/
def key : PubKey := Vector.replicate 32 1

def roomId : String := "00000000-0000-0000-0000-000000000001"

def viewer : ClientCrates where
  enc := .reference
  verifyStrict k _ _ := if k = key then .ok () else .error .invalidSignature
  parseUuid s := if s = roomId then .ok 1 else .error "invalid"
  blake3Hex _ := ""

/-- A manifest of the room, told from others by when it was made. -/
def manifest (createdAt : ℤ) : MediaManifest where
  manifestVersion := 1
  roomId := roomId
  media := []
  subtitles := []
  createdAt := createdAt
  hostSignature := some ⟨Base64.encode (List.replicate 32 1), "ed25519",
    Base64.encode (List.replicate 64 1)⟩

def emptyTable : ManifestTable := ⟨[], List.nodup_nil⟩

abbrev Outcome : Type :=
  CacheHistory × Pool CacheEffect.Reply CacheOp (Except ManifestAcceptError Uuid) ManifestCache

/-- Every call has ended with this cached under this version, and none accepted it with another
version. -/
def ends (version : ℤ) (m : MediaManifest) (accepted : ℤ) : Outcome → Bool
  | (h, p) => p.tasks.all (fun t => t.result.isSome) &&
    p.state.currentVersions.get 1 == some version && p.state.verifiedManifests.get 1 == some m &&
    h.all (fun d => decide (d.inp = .up) && match d.op with
      | .accept m' version' _ => m' != m || version' == accepted
      | .anchor _ => true)

/-- The first call claims its version, the second claims and caches, and then the first caches. -/
def race : List (Move CacheOp Disk) :=
  [.spawn (.anchor (some key)), .spawn (.accept (manifest 1) 1 0),
    .spawn (.accept (manifest 2) 2 0)] ++ [0, 1, 2, 1, 2, 2, 1, 1, 1, 2, 2].map fun i =>
      .advance i .up

lemma exists_race : ∃ h p, CacheRun viewer emptyTable h p ∧ ends 2 (manifest 1) 1 (h, p) = true :=
  System.exists_run_of_play race (fun _ _ => true) (ends 2 (manifest 1) 1) (fun _ _ _ => trivial)
    (by decide)

/-- **The first manifest stays cached under the second one's version**, with all calls over. -/
theorem not_manifest_cache_faithful : ∃ h p, CacheRun viewer emptyTable h p ∧ p.quiet ∧
    (∀ d ∈ h, d.inp = .up) ∧ ¬CacheFaithful viewer h p.state := by
  obtain ⟨h, p, r, hends⟩ := exists_race
  simp only [ends, Bool.and_eq_true, List.all_eq_true, beq_iff_eq, decide_eq_true_eq] at hends
  obtain ⟨⟨⟨hquiet, hversion⟩, hcached⟩, hops⟩ := hends
  refine ⟨h, p, r, hquiet, fun d hd => (hops d hd).1, fun hf => ?_⟩
  obtain ⟨version, hversion', d, hd, ts, hop, -⟩ := hf.versioned 1 _ hcached
  obtain rfl := Option.some.inj (hversion.symm.trans hversion')
  have hd' := (hops d hd).2
  rw [hop] at hd'
  simp at hd'

/-- A manifest that arrives twice at once. -/
def twice : List (Move CacheOp Disk) :=
  [.spawn (.anchor (some key)), .spawn (.accept (manifest 1) 1 0),
    .spawn (.accept (manifest 1) 1 0)] ++ [0, 1, 2, 1, 2, 1, 2, 1, 2, 1, 2].map fun i =>
      .advance i .up

lemma exists_twice :
    ∃ h p, CacheRun viewer emptyTable h p ∧ (h.all (fun d => match d.op with
      | .accept m _ _ => m == manifest 1
      | .anchor _ => true) && ends 1 (manifest 1) 1 (h, p)) = true :=
  System.exists_run_of_play twice (fun _ _ => true) (fun out => out.1.all (fun d => match d.op with
      | .accept m _ _ => m == manifest 1
      | .anchor _ => true) && ends 1 (manifest 1) 1 out) (fun _ _ _ => trivial)
    (by decide)

/-- Two calls at once cache and write the manifest. -/
theorem manifest_cache_twice : ∃ h p, CacheRun viewer emptyTable h p ∧
    p.state.verifiedManifests.get 1 = some (manifest 1) ∧
    Throughout (CacheFaithful viewer) h p.state ∧ Persisted p.state := by
  obtain ⟨h, p, r, hends⟩ := exists_twice
  simp only [ends, Bool.and_eq_true, List.all_eq_true, beq_iff_eq, decide_eq_true_eq] at hends
  obtain ⟨hops, ⟨⟨hquiet, -⟩, hcached⟩, hup⟩ := hends
  have honly {room : Uuid} {version : ℤ} {m : MediaManifest} (ha : Accepted h room version m) :
      m = manifest 1 := by
    obtain ⟨d, hd, ts, hop, -⟩ := ha
    have := hops d hd
    rw [hop] at this
    simpa using this
  have hone : OneManifest h := fun room v v' m m' ha ha' => (honly ha).trans (honly ha').symm
  exact ⟨h, p, r, hcached, ((manifest_cache_faithful viewer emptyTable r).2.2 hquiet).2
    ⟨hone, fun row hrow => absurd hrow List.not_mem_nil, stored_of_up r hquiet fun d hd =>
      (hup d hd).1⟩⟩

end CacheRace

end Locast.Client
