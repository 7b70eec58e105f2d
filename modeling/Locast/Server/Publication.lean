import Locast.Server.Boot
import Locast.Server.Codes
import Locast.Server.Ending
import Locast.Server.Play

/-!
# Publications in order

What the manifests of a room look like over a whole run that starts with a boot: their versions are
consecutive, they are cached and broadcast one after the other in that order, the cache holds the
one stored last whenever the room's lock is free, and each was signed by the host of the room it was
published to.  A room has its channel from the last insertion of its creation on; what is broadcast
before goes nowhere.
-/

namespace Locast.Server

open Locast.Lib Locast.Protocol Locast.Rooms

variable {env : Env} {guard : List Step → Step → Prop} {st₀ : ServerState} {h : List Step}
  {p : Tasks} {R : Uuid}

/-! ### Publications -/

/-- The manifest a step stores in `R`. -/
def Step.publishes (R : Uuid) (d : Step) : Option CachedManifest :=
  match d with
  | ⟨_, .section id sec, _, r, _, _⟩ => if id = R then sec.published r else none
  | _ => none

/-- The manifest a step caches in `R`. -/
def Step.caches (R : Uuid) (d : Step) : Option CachedManifest :=
  match d.effect with
  | .putManifest id c => if id = R then some c else none
  | _ => none

/-- The manifest a step broadcasts in `R`. -/
def Step.broadcasts (R : Uuid) (d : Step) : Option CachedManifest :=
  match d.effect with
  | .publishManifest id c => if id = R then some c else none
  | _ => none

/-- The manifest a step broadcasts while `R` has its channel. -/
def Step.heard (R : Uuid) (d : Step) : Option CachedManifest :=
  if (d.before.tx.get R).isSome then d.broadcasts R else none

/-- The manifest a step broadcasts while `R` has no channel. -/
def Step.unheard (R : Uuid) (d : Step) : Option CachedManifest :=
  if (d.before.tx.get R).isSome then none else d.broadcasts R

/-- The manifests of a run's steps, in order. -/
def manifestsOf (kind : Step → Option CachedManifest) (h : List Step) : List CachedManifest :=
  h.filterMap kind

@[simp] lemma manifestsOf_nil (kind : Step → Option CachedManifest) : manifestsOf kind [] = [] :=
  rfl

@[simp] lemma manifestsOf_append (kind : Step → Option CachedManifest) (h : List Step) (d : Step) :
    manifestsOf kind (h ++ [d]) = manifestsOf kind h ++ (kind d).toList := by
  rw [manifestsOf, List.filterMap_append]
  cases hd : kind d <;> simp [manifestsOf, hd]

/-- The manifests among the items of a channel. -/
def manifestsIn (items : List BroadcastItem) : List BroadcastItem :=
  items.filter (·.payload.isManifest)

/-- A step that has nothing to do with the manifests of `R`. -/
structure Step.LeavesManifests (R : Uuid) (d : Step) : Prop where
  latest : d.after.db.latestRoomManifest R = d.before.db.latestRoomManifest R
  sent : manifestsIn (d.sent R) = []
  cache : d.removes .manifestCache R = false →
    d.after.manifestCache.get R = d.before.manifestCache.get R

/-! ### Steps -/

/-- A section sends no manifest. -/
lemma manifestsIn_section {op : Op} {inp : Input} {before : ServerState} {id : Uuid} {sec : Section}
    {s : RoomState} {out : SectionOutcome sec.Reply}
    (hrun : sec.run ⟨env.cfg, env.crates, inp.clockMs⟩ ⟨before.db, inp.faults⟩ s = some out) :
    manifestsIn (Step.sent R ⟨op, .section id sec, inp, out.reply, before, before.apply id out⟩) =
      [] := by
  rw [sent_section]
  split
  · refine List.filter_eq_nil_iff.2 fun item hitem => ?_
    obtain ⟨pair, hpair, rfl⟩ := List.mem_map.1 hitem
    have hsends := Section.run_sends hrun pair (List.mem_filter.1 hpair).1
    simp [Section.sends_isManifest hsends]
  · rfl

/-- What goes out at the end of a publication. -/
lemma manifestsIn_publishManifest (op : Op) (inp : Input) (before : ServerState)
    (split : SplitForWire) (id : Uuid) (c : CachedManifest) :
    manifestsIn (Step.sent R
      ⟨op, .publishManifest id c, inp, (), before, before.publishManifest split id c⟩) =
      if id = R ∧ (before.tx.get R).isSome then c.wireItems split R else [] := by
  rw [sent_publishManifest]
  split
  · exact List.filter_eq_self.2 wireItems_isManifest
  · rfl

/-- **Only the sections of `R` and the ends of its publications touch the manifests of `R`.** -/
lemma leavesManifests {d : Step} (hd : (system env).Handled d) (ho : d.effect.outside env.crates)
    (hR : ∀ sec, d.effect ≠ .section R sec) (hdelivers : d.delivers R = none) :
    d.LeavesManifests R := by
  have hc := step_cases hd
  cases hc with
  | «section» op inp before id sec s out hs _ hrun =>
    have hid : ¬R = id := by
      rintro rfl
      exact hR sec rfl
    refine ⟨?_, manifestsIn_section hrun, fun _ => by simp⟩
    rw [ServerState.apply_db]
    exact Section.run_otherManifests hrun (by rwa [Heap.get_id hs])
  | insertRoom => exact ⟨rfl, by rw [Step.sent_of_eq rfl]; rfl, fun _ => rfl⟩
  | insertCode => exact ⟨rfl, by rw [Step.sent_of_eq rfl]; rfl, fun _ => rfl⟩
  | insertChannel => exact ⟨rfl, by rw [sent_insertChannel]; rfl, fun _ => rfl⟩
  | putManifest op inp before id c =>
    have hid : ¬R = id := by
      rintro rfl
      simp [Step.delivers] at hdelivers
    refine ⟨rfl, by rw [Step.sent_of_eq rfl]; rfl, fun _ => ?_⟩
    exact (ServerState.putManifest_manifestCache before id R c).trans (if_neg hid)
  | publishManifest op inp before id c =>
    have hid : ¬id = R := by
      rintro rfl
      simp [Step.delivers] at hdelivers
    exact ⟨by simp, by rw [manifestsIn_publishManifest, if_neg fun h => hid h.1], fun _ => by simp⟩
  | publish op inp before id item =>
    refine ⟨by simp, ?_, fun _ => by simp⟩
    rw [sent_publish]
    split
    · simp [manifestsIn, not_isManifest ho]
    · rfl
  | remove op inp before map id =>
    refine ⟨by simp, by rw [sent_remove]; rfl, fun hno => ?_⟩
    rw [ServerState.remove_manifestCache, if_neg]
    rintro ⟨rfl, rfl⟩
    simp [Step.removes] at hno
  | minor _ hminor hheap htx hbyId hcode hcache =>
    refine ⟨Db.latest_congr (by rw [manifests_of_minor hd hminor ho]), ?_, fun _ => by rw [hcache]⟩
    rw [Step.sent_of_eq (by rw [htx])]
    rfl

/-! ### New rooms -/

/-- **New rooms have no manifests**: a room that is there has a row, and without a row, or with one
whose room is still to come, there are no manifests. -/
structure FreshInv (st : ServerState) (gs : List Booking) : Prop where
  row : ∀ id, (st.heap.get id).isSome → st.db.codeOf id ≠ none
  booked : ∀ id c, .row id c ∈ gs → st.db.codeOf id ≠ none ∧
    (st.heap.get id = none → st.db.latestRoomManifest id = none)
  unwritten : ∀ id, st.db.codeOf id = none → st.db.latestRoomManifest id = none

variable {st st' : ServerState} {bs : List Booking} {i : ℕ} {b b' : Booking}

lemma FreshInv.set_of (hI : FreshInv st bs) (hi : bs[i]? = some b)
    (hb : b' = b ∨ ∀ id c, b' ≠ .row id c) : FreshInv st (bs.set i b') := by
  refine { hI with booked := fun id c hc => ?_ }
  rcases List.mem_or_eq_of_mem_set hc with hc | hc
  · exact hI.booked id c hc
  · rcases hb with rfl | hb
    · exact hI.booked id c (hc ▸ List.mem_of_getElem? hi)
    · exact absurd hc.symm (hb id c)

/-- A step that adds no room and no row, and writes manifests of rooms only. -/
lemma FreshInv.congr (hI : FreshInv st bs)
    (hheap : ∀ id, (st'.heap.get id).isSome = (st.heap.get id).isSome)
    (hcode : ∀ id, st'.db.codeOf id = st.db.codeOf id)
    (hlatest : ∀ id, st.heap.get id = none →
      st'.db.latestRoomManifest id = st.db.latestRoomManifest id) : FreshInv st' bs := by
  have hnone {id : Uuid} (h : st'.heap.get id = none) : st.heap.get id = none := by
    have := hheap id
    rw [h] at this
    exact Option.isNone_iff_eq_none.1 (by simpa using this.symm)
  refine ⟨fun id h => ?_, fun id c hc => ?_, fun id h => ?_⟩
  · rw [hcode]
    exact hI.row id (hheap id ▸ h)
  · rw [hcode]
    exact ⟨(hI.booked id c hc).1, fun h => by
      rw [hlatest id (hnone h), (hI.booked id c hc).2 (hnone h)]⟩
  · rw [hcode] at h
    rw [hlatest id, hI.unwritten id h]
    by_contra hsome
    exact hI.row id (Option.isSome_iff_ne_none.2 hsome) h

/-- **Every step keeps new rooms free of manifests.** -/
lemma FreshInv.step {d : Step} (hI : FreshInv d.before bs) (hi : bs[i]? = some b)
    (ha : booking.allows b d.effect) (hd : (system env).Handled d)
    (ho : d.effect.outside env.crates) :
    FreshInv d.after (bs.set i (booking.next b d.effect d.resp)) := by
  obtain ⟨op, e, inp, r, before, after⟩ := d
  have h : Effect.handle env e inp before = some (r, after) := hd
  cases e with
  | «section» id sec =>
    obtain ⟨s, out, hs, hrun, rfl, rfl⟩ := handle_section (r := r) h
    have hid : out.state.id = id := (Section.run_framed hrun).id.trans (Heap.get_id hs)
    refine (hI.congr (fun id' => ?_) (fun id' => ?_) fun id' hnone => ?_).set_of hi (.inl rfl)
    · rw [ServerState.apply_heap, Heap.get_put, hid]
      split
      · rename_i h
        rw [h, hs]
        rfl
      · rfl
    · rw [ServerState.apply_db]
      exact Section.run_codeOf hrun id'
    · rw [ServerState.apply_db]
      refine Section.run_otherManifests hrun ?_
      rw [Heap.get_id hs]
      rintro rfl
      simp [hs] at hnone
  | insertRoom s =>
    simp only [Effect.handle] at h
    split at h
    · cases h
    · cases h
      obtain ⟨-, rfl⟩ := ha
      have hrow := (hI.booked s.id s.code (List.mem_of_getElem? hi)).1
      have hnone {id : Uuid} (h : (before.insertRoom s).heap.get id = none) :
          before.heap.get id = none := by
        rw [ServerState.insertRoom_heap, Heap.get_put] at h
        split at h
        · cases h
        · exact h
      refine FreshInv.set_of (b := .row s.id s.code) ⟨fun id hsome => ?_, fun id c hc => ?_,
        hI.unwritten⟩ hi (.inr fun _ _ h => by cases h)
      · rw [ServerState.insertRoom_heap, Heap.get_put] at hsome
        split at hsome
        · rename_i hid
          rwa [hid]
        · exact hI.row id hsome
      · exact ⟨(hI.booked id c hc).1, fun h => (hI.booked id c hc).2 (hnone h)⟩
  | insertCode code id =>
    cases h
    have hinsert : FreshInv (before.insertCode code id) bs :=
      hI.congr (fun _ => rfl) (fun _ => rfl) fun _ _ => rfl
    exact hinsert.set_of hi (.inr fun _ _ h => by cases h)
  | insertChannel id =>
    cases h
    have hinsert : FreshInv (before.insertChannel id) bs :=
      hI.congr (fun _ => rfl) (fun _ => rfl) fun _ _ => rfl
    exact hinsert.set_of hi (.inl rfl)
  | putManifest id c =>
    cases h
    have hput : FreshInv (before.putManifest id c) bs :=
      hI.congr (fun _ => rfl) (fun _ => rfl) fun _ _ => rfl
    exact hput.set_of hi (.inl rfl)
  | publishManifest id c =>
    cases h
    exact (hI.congr (by simp) (by simp) (by simp)).set_of hi (.inl rfl)
  | publish id item =>
    cases h
    exact (hI.congr (by simp) (by simp) (by simp)).set_of hi (.inl rfl)
  | remove map id =>
    cases h
    exact (hI.congr (by simp) (by simp) (by simp)).set_of hi (.inl rfl)
  | store request =>
    have hlatest (id : Uuid) : after.db.latestRoomManifest id = before.db.latestRoomManifest id :=
      Db.latest_congr (by rw [manifests_of_minor hd rfl ho])
    cases h
    change FreshInv { before with db := (Store.exec ⟨before.db, inp.faults⟩ request).2.db }
      (bs.set i (booking.next b (.store request) (Store.exec ⟨before.db, inp.faults⟩ request).1))
    have hkept (hcode : ∀ id, (Store.exec ⟨before.db, inp.faults⟩ request).2.db.codeOf id =
        before.db.codeOf id) :
        FreshInv { before with db := (Store.exec ⟨before.db, inp.faults⟩ request).2.db } bs :=
      hI.congr (fun _ => rfl) hcode fun id _ => hlatest id
    rcases Store.exec_spec ⟨before.db, inp.faults⟩ request with ⟨⟨e, he⟩, hdb⟩ | ⟨hok, hdb⟩
    · refine (hkept fun _ => by rw [hdb]).set_of hi (.inl ?_)
      rw [he]
      cases request <;> rfl
    · cases request with
      | insertRoom id code title u pubkey migration createdMs =>
        obtain ⟨-, hfree, hcodes⟩ := Db.exec_insertRoom hdb
        have hnext (answer : Except String Unit) (ha : answer = .ok ()) :
            booking.next b (.store (.insertRoom id code title u pubkey migration createdMs))
              answer = .row id code := by
          rw [ha]
          rfl
        have hcode {id' : Uuid} (hne : before.db.codeOf id' ≠ none) :
            Db.codeOf (Store.exec ⟨before.db, inp.faults⟩ (.insertRoom id code title u pubkey
              migration createdMs)).2.db id' ≠ none := by
          rw [hcodes]
          split
          · simp
          · exact hne
        refine ⟨fun id' hsome => hcode (hI.row id' hsome), fun id' c hc => ?_, fun id' hnone => ?_⟩
        · rcases List.mem_or_eq_of_mem_set hc with hc | hc
          · exact ⟨hcode (hI.booked id' c hc).1,
              fun h => (hlatest id').trans ((hI.booked id' c hc).2 h)⟩
          · replace hc := hc.trans (hnext _ hok)
            cases hc
            exact ⟨by rw [hcodes]; simp, fun _ => (hlatest _).trans (hI.unwritten _ hfree)⟩
        · rw [hcodes] at hnone
          split at hnone
          · cases hnone
          · exact (hlatest id').trans (hI.unwritten id' hnone)
      | _ => exact (hkept fun id => Db.exec_codeOf hdb rfl id).set_of hi (.inl rfl)
  | _ =>
    obtain ⟨hheap, -, -, hdb, -, -⟩ := handle_benign rfl h
    exact (hI.congr (by simp [hheap]) (by simp [hdb]) (by simp [hdb])).set_of hi (.inl rfl)

/-- No room that is inserted has manifests. -/
lemma insertRoom_unwritten (r : RunFrom env guard st₀ h p) (h₀ : FreshInv st₀ [])
    (hlawful : ∀ d ∈ h, d.Lawful env.crates R) : ∀ d ∈ h, ∀ s, d.effect = .insertRoom s →
      d.before.db.latestRoomManifest s.id = none := by
  refine (System.Run.invariant booking (fun _ => .none) (fun _ _ => True)
    (fun h st bs => FreshInv st bs ∧ ∀ d ∈ h, ∀ s, d.effect = .insertRoom s →
      d.before.db.latestRoomManifest s.id = none)
    (program_booking env) ⟨h₀, fun d hd => absurd hd List.not_mem_nil⟩ (fun _ st bs _ hI => ?_)
    (fun _ _ d _ hd => handled_answers hd) (fun h bs i b d hI hi ha hd hl => ?_)
    (r.guarded hlawful)).1.2
  · exact ⟨{ hI.1 with booked := fun id c hc => hI.1.booked id c (by simpa using hc) }, hI.2⟩
  · refine ⟨hI.1.step hi ha hd hl.outside, fun d' hd' s he => ?_⟩
    rcases List.mem_append.1 hd' with hd' | hd'
    · exact hI.2 d' hd' s he
    rw [List.mem_singleton.1 hd'] at he ⊢
    rw [he] at ha
    obtain ⟨-, rfl⟩ := ha
    refine (hI.1.booked s.id s.code (List.mem_of_getElem? hi)).2 ?_
    have hc := step_cases hd
    cases hc with
    | insertRoom op inp before s' hfree =>
      cases he
      exact hfree
    | minor _ hminor => simp [he, Effect.isMajor] at hminor
    | _ => cases he

/-! ### The invariant -/

/-- **The manifests of `R`, in the history, the store, the cache and on the channel.**  `first` is
the one stored at the start. -/
structure PublicationInv (split : SplitForWire) (first : Option CachedManifest) (R : Uuid)
    (h : List Step) (st : ServerState) (gs : List (Option Pending)) : Prop where
  versions : (manifestsOf (Step.publishes R) h).map (·.version) =
    (List.range (manifestsOf (Step.publishes R) h).length).map fun i : ℕ =>
      (first.map (·.version)).getD 0 + 1 + i
  latest : (st.db.latestRoomManifest R).map RoomManifestRow.cached =
    (manifestsOf (Step.publishes R) h).getLast?.or first
  settled : (∀ g ∈ gs, g = none) →
    manifestsOf (Step.caches R) h = manifestsOf (Step.publishes R) h ∧
      manifestsOf (Step.broadcasts R) h = manifestsOf (Step.publishes R) h
  pending : ∀ g, some g ∈ gs →
    manifestsOf (Step.publishes R) h = manifestsOf (Step.broadcasts R) h ++ [g.manifest] ∧
      manifestsOf (Step.caches R) h =
        if g.cached then manifestsOf (Step.publishes R) h else manifestsOf (Step.broadcasts R) h
  broadcast : manifestsIn (sentTo R h) = (manifestsOf (Step.heard R) h).flatMap
    (·.wireItems split R)
  cache : (st.heap.get R).isSome → tally (Step.removes .manifestCache R) h = 0 →
    st.manifestCache.get R = (manifestsOf (Step.caches R) h).getLast?.or first

variable {split : SplitForWire} {first : Option CachedManifest} {gs : List (Option Pending)}
  {g g' : Option Pending}

/-- The greatest version is the last one published. -/
lemma PublicationInv.topVersion (hI : PublicationInv split first R h st gs) : st.db.topVersion R =
    (first.map (·.version)).getD 0 + (manifestsOf (Step.publishes R) h).length := by
  have hversions := hI.versions
  rw [Db.topVersion_eq, hI.latest]
  generalize manifestsOf (Step.publishes R) h = l at hversions
  cases hl : l.getLast? with
  | none =>
    obtain rfl := List.getLast?_eq_none_iff.1 hl
    simp
  | some c =>
    obtain ⟨l', rfl⟩ := List.getLast?_eq_some_iff.1 hl
    rw [List.map_append, List.map_singleton, List.length_append, List.length_singleton,
      List.range_succ, List.map_append, List.map_singleton] at hversions
    have hlast : c.version = (first.map (·.version)).getD 0 + 1 + l'.length := by
      simpa using (List.append_inj' hversions rfl).2
    simp [hlast]
    omega

/-- A step that leaves the manifests of `R` alone. -/
lemma PublicationInv.leaves {d : Step} (hI : PublicationInv split first R h d.before gs)
    (hd : d.LeavesManifests R) (hpub : d.publishes R = none) (hdelivers : d.delivers R = none)
    (hroom : (d.after.heap.get R).isSome → (d.before.heap.get R).isSome ∨
      d.before.manifestCache.get R = none ∧ d.before.db.latestRoomManifest R = none ∧
        ∀ g ∈ gs, g = none) :
    PublicationInv split first R (h ++ [d]) d.after gs := by
  have hcaches : d.caches R = none := by
    obtain ⟨op, e, inp, resp, before, after⟩ := d
    cases e <;> first | rfl | exact hdelivers
  have hbroadcasts : d.broadcasts R = none := by
    obtain ⟨op, e, inp, resp, before, after⟩ := d
    cases e <;> first | rfl | exact hdelivers
  have hheard : d.heard R = none := by simp [Step.heard, hbroadcasts]
  constructor
  all_goals simp only [manifestsOf_append, hpub, hcaches, hbroadcasts, hheard, Option.toList_none,
    List.append_nil]
  case versions => exact hI.versions
  case latest => rw [hd.latest, hI.latest]
  case settled => exact hI.settled
  case pending => exact hI.pending
  case broadcast =>
    rw [sentTo_append, sentTo_singleton, manifestsIn, List.filter_append, ← manifestsIn,
      ← manifestsIn, hd.sent, List.append_nil, hI.broadcast]
  case cache =>
    intro hsome hno
    rw [tally_append] at hno
    have hkept : d.removes .manifestCache R = false := by
      by_contra hrem
      rw [if_pos (by simpa using hrem)] at hno
      omega
    rw [hd.cache hkept]
    rcases hroom hsome with hsome | ⟨hcache, hlatest, hnone⟩
    · exact hI.cache hsome (by omega)
    · -- nothing has been published in a room that comes now
      rw [hcache, (hI.settled hnone).1, ← hI.latest, hlatest]
      rfl

/-- A section on `R`. -/
lemma PublicationInv.section {op : Op} {inp : Input} {before : ServerState} {sec : Section}
    {s : RoomState} {out : SectionOutcome sec.Reply}
    (hI : PublicationInv env.crates.splitPublished first R h before gs)
    (hP : PendingInv R before gs) (hi : gs[i]? = some g) (hs : before.heap.get R = some s)
    (hfree : R ∉ before.held)
    (hrun : sec.run ⟨env.cfg, env.crates, inp.clockMs⟩ ⟨before.db, inp.faults⟩ s = some out) :
    PublicationInv env.crates.splitPublished first R
      (h ++ [⟨op, .section R sec, inp, out.reply, before, before.apply R out⟩])
      (before.apply R out)
      (gs.set i (((sec.published out.reply).map fun c => ⟨c, false⟩).or g)) := by
  have hM := Section.run_manifests hrun
  have hlatest := hM.latest
  rw [Heap.get_id hs] at hlatest
  have hnone := hP.none_of_free hfree
  obtain rfl : g = none := hnone g (List.mem_of_getElem? hi)
  obtain ⟨hcached, hbroadcast⟩ := hI.settled hnone
  generalize hd : (⟨op, .section R sec, inp, out.reply, before, before.apply R out⟩ : Step) = d
  have hpub : Step.publishes R d = sec.published out.reply := by simp [← hd, Step.publishes]
  have hcaches : Step.caches R d = none := by rw [← hd]; rfl
  have hbroadcasts : Step.broadcasts R d = none := by rw [← hd]; rfl
  have hheard : Step.heard R d = none := by simp [Step.heard, hbroadcasts]
  have hsent : manifestsIn (Step.sent R d) = [] := by rw [← hd]; exact manifestsIn_section hrun
  have hrem : Step.removes .manifestCache R d = false := by rw [← hd]; rfl
  have hversion (c : CachedManifest) (hc : sec.published out.reply = some c) : c.version =
      (first.map (·.version)).getD 0 + (manifestsOf (Step.publishes R) h).length + 1 := by
    rw [hM.version c hc, Heap.get_id hs, ← hI.topVersion]
  constructor
  all_goals simp only [manifestsOf_append, hpub, hcaches, hbroadcasts, hheard, Option.toList_none,
    List.append_nil]
  case versions =>
    cases hc : sec.published out.reply with
    | none => simpa using hI.versions
    | some c =>
      simp only [Option.toList_some, List.map_append, List.map_singleton, List.length_append,
        List.length_singleton, List.range_succ, hI.versions, hversion c hc]
      congr 2
      omega
  case latest =>
    rw [ServerState.apply_db, hlatest, hI.latest]
    cases sec.published out.reply <;> simp
  case settled =>
    intro hall
    obtain ⟨hlt, -⟩ := List.getElem?_eq_some_iff.1 hi
    have hnext := hall _ (List.mem_set hlt _)
    have hpublished : sec.published out.reply = none := by simpa using hnext
    simpa [hpublished] using ⟨hcached, hbroadcast⟩
  case pending =>
    intro x hx
    rcases List.mem_or_eq_of_mem_set hx with hx | hx
    · cases hnone _ hx
    · cases hc : sec.published out.reply with
      | none => simp [hc] at hx
      | some c =>
        obtain rfl : x = ⟨c, false⟩ := by simpa [hc] using hx
        simp [hcached, hbroadcast]
  case broadcast =>
    rw [sentTo_append, sentTo_singleton, manifestsIn, List.filter_append, ← manifestsIn,
      ← manifestsIn, hsent, List.append_nil, hI.broadcast]
  case cache =>
    intro _ hno
    rw [ServerState.apply_manifestCache]
    refine hI.cache (by rw [hs]; rfl) ?_
    simpa [hrem] using hno

/-- The manifest is cached. -/
lemma PublicationInv.puts {op : Op} {inp : Input} {before : ServerState} {c : CachedManifest}
    (hI : PublicationInv split first R h before gs) (hP : PendingInv R before gs)
    (hi : gs[i]? = some (some ⟨c, false⟩)) :
    PublicationInv split first R
      (h ++ [⟨op, .putManifest R c, inp, (), before, before.putManifest R c⟩])
      (before.putManifest R c) (gs.set i (some ⟨c, true⟩)) := by
  obtain ⟨hpublished, hcached⟩ := hI.pending _ (List.mem_of_getElem? hi)
  generalize hd : (⟨op, .putManifest R c, inp, (), before, before.putManifest R c⟩ : Step) = d
  have hpub : Step.publishes R d = none := by rw [← hd]; rfl
  have hcaches : Step.caches R d = some c := by rw [← hd]; exact if_pos rfl
  have hbroadcasts : Step.broadcasts R d = none := by rw [← hd]; rfl
  have hheard : Step.heard R d = none := by simp [Step.heard, hbroadcasts]
  have hsent : Step.sent R d = [] := by rw [← hd]; exact Step.sent_of_eq rfl
  have hall : manifestsOf (Step.caches R) h ++ [c] = manifestsOf (Step.publishes R) h := by
    rw [hcached, hpublished]
    rfl
  constructor
  all_goals simp only [manifestsOf_append, hpub, hcaches, hbroadcasts, hheard, Option.toList_none,
    Option.toList_some, List.append_nil]
  case versions => exact hI.versions
  case latest => exact hI.latest
  case settled =>
    intro hnone
    obtain ⟨hlt, -⟩ := List.getElem?_eq_some_iff.1 hi
    cases hnone _ (List.mem_set hlt _)
  case pending =>
    intro x hx
    obtain rfl : x = ⟨c, true⟩ := Option.some.inj (hP.only hi hx)
    exact ⟨hpublished, by rw [hall]; rfl⟩
  case broadcast => simpa [hsent] using hI.broadcast
  case cache => simp [ServerState.putManifest_manifestCache]

/-- The manifest goes out. -/
lemma PublicationInv.goesOut {op : Op} {inp : Input} {before : ServerState} {c : CachedManifest}
    (hI : PublicationInv split first R h before gs) (hP : PendingInv R before gs)
    (hi : gs[i]? = some (some ⟨c, true⟩)) :
    PublicationInv split first R
      (h ++ [⟨op, .publishManifest R c, inp, (), before, before.publishManifest split R c⟩])
      (before.publishManifest split R c) (gs.set i none) := by
  obtain ⟨hpublished, hcached⟩ := hI.pending _ (List.mem_of_getElem? hi)
  have hsent := manifestsIn_publishManifest (R := R) op inp before split R c
  generalize hd : (⟨op, .publishManifest R c, inp, (), before,
    before.publishManifest split R c⟩ : Step) = d at hsent
  have hpub : Step.publishes R d = none := by rw [← hd]; rfl
  have hcaches : Step.caches R d = none := by rw [← hd]; rfl
  have hbroadcasts : Step.broadcasts R d = some c := by rw [← hd]; exact if_pos rfl
  have hrem : Step.removes .manifestCache R d = false := by rw [← hd]; rfl
  have hheard : Step.heard R d = if (before.tx.get R).isSome then some c else none := by
    rw [Step.heard, hbroadcasts, ← hd]
  constructor
  all_goals simp only [manifestsOf_append, hpub, hcaches, hbroadcasts, hheard, Option.toList_none,
    Option.toList_some, List.append_nil]
  case versions => exact hI.versions
  case latest => simpa using hI.latest
  case settled => exact fun _ => ⟨by rw [hcached]; rfl, hpublished.symm⟩
  case pending =>
    intro x hx
    cases hP.only hi hx
  case broadcast =>
    rw [sentTo_append, sentTo_singleton, manifestsIn, List.filter_append, ← manifestsIn,
      ← manifestsIn, hI.broadcast, hsent, List.flatMap_append]
    split <;> simp_all
  case cache =>
    intro hsome hno
    rw [ServerState.publishManifest_manifestCache]
    refine hI.cache (by simpa using hsome) ?_
    simpa [hrem] using hno

/-! ### Signatures -/

/-- The manifest names the room, and the key that signed it is that of the participant who is host
of the running room it is published to. -/
structure Step.Signed (crates : Crates) (R : Uuid) (d : Step) (c : CachedManifest) : Prop where
  room : c.manifest.roomId = crates.uuidToString R
  verified : crates.verifyManifest c.manifest = true
  host : ∃ s, d.before.heap.get R = some s ∧ s.state ≠ .ended ∧ ∃ p ∈ s.participants,
    p.userId = c.hostUserId ∧ p.isHost = true ∧ p.status.isPresent = true ∧
      signerPublicKey crates c.manifest = .ok p.pubkey.toList

lemma manifestRefusal_eq_none {crates : Crates} {pubkey : PubKey} {m : MediaManifest}
    (h : manifestRefusal crates R pubkey m = none) : crates.verifyManifest m = true ∧
      m.roomId = crates.uuidToString R ∧ signerPublicKey crates m = .ok pubkey.toList := by
  unfold manifestRefusal at h
  split at h
  · cases h
  rename_i hverified
  split at h
  · cases h
  rename_i hroom
  cases hsigner : signerPublicKey crates m with
  | error e => simp [hsigner] at h
  | ok signer =>
    have hkey : signer = pubkey.toList := by simpa [hsigner] using h
    exact ⟨by simpa using hverified, by simpa using hroom, by rw [hkey]⟩

/-- **What a step publishes was signed by the host.** -/
lemma signed_of_publishes {d : Step} {c : CachedManifest} (hd : (system env).Handled d)
    (ho : d.effect.outside env.crates) (hpub : d.publishes R = some c) :
    d.Signed env.crates R c := by
  obtain ⟨op, e, inp, r, before, after⟩ := d
  cases e with
  | «section» id sec =>
    obtain ⟨s, out, hs, hrun, rfl, -⟩ := handle_section (r := r) hd
    simp only [Step.publishes] at hpub
    split at hpub
    · rename_i hid
      subst hid
      cases sec with
      | manifestPublish u pubkey m =>
        obtain ⟨hverified, hroom, hsigner⟩ := manifestRefusal_eq_none ho
        simp only [Section.run] at hrun
        rcases manifestPublishLocked_cases env.crates s ⟨before.db, inp.faults⟩ u pubkey m
          inp.clockMs with ⟨e, store', hp, -⟩ | ⟨row, store', hp, -, -, hmanifest, hu⟩
        · rw [hp] at hrun
          cases hrun
          cases hpub
        · have hspec := manifestPublishLocked_spec (c := row.cached) (by rw [hp])
          rw [hp] at hrun
          cases hrun
          cases hpub
          obtain ⟨p, hmem, hp⟩ := List.any_eq_true.1 hspec.2.1
          simp only [Bool.and_eq_true, beq_iff_eq, decide_eq_true_eq] at hp
          obtain ⟨⟨⟨hpu, hhost⟩, hkey⟩, hpresent⟩ := hp
          have hm : row.cached.manifest = m := hmanifest
          refine ⟨hm ▸ hroom, hm ▸ hverified, s, hs, hspec.1, p, hmem, hpu.trans hu.symm, hhost,
            hpresent, ?_⟩
          rw [hm, hsigner, hkey]
      | _ => cases hpub
    · cases hpub
  | _ => cases hpub

/-! ### Runs -/

/-- **The publications of `R` in a run from a boot on `db`**: consecutive versions above the stored
ones, broadcast in their order; the cache holds the highest one whenever the lock of the room is
free, as long as the room is registered, and nothing once it has been removed; each manifest is
signed by the host it was ordered under; and no other step interferes. -/
structure PublicationOrder (env : Env) (db : Db) (R : Uuid) (h : List Step) (p : Tasks) : Prop where
  versions : (manifestsOf (Step.publishes R) h).map (·.version) =
    (List.range (manifestsOf (Step.publishes R) h).length).map fun i : ℕ => db.topVersion R + 1 + i
  ordered : ∃ waiting, manifestsOf (Step.publishes R) h =
    manifestsOf (Step.broadcasts R) h ++ waiting ∧ waiting.length ≤ 1 ∧
      (R ∉ p.state.held → waiting = [])
  listened : manifestsOf (Step.broadcasts R) h =
    manifestsOf (Step.unheard R) h ++ manifestsOf (Step.heard R) h
  restored : (∀ d ∈ h, d.creates R = false) → manifestsOf (Step.unheard R) h = []
  broadcast : manifestsIn (sentTo R h) =
    (manifestsOf (Step.heard R) h).flatMap (·.wireItems env.crates.splitPublished R)
  current : R ∈ p.state.byId → R ∉ p.state.held → p.state.manifestCache.get R =
    (p.state.db.latestRoomManifest R).map RoomManifestRow.cached
  behind : R ∈ p.state.byId → p.state.manifestCache.get R =
      (p.state.db.latestRoomManifest R).map RoomManifestRow.cached ∨
    p.state.manifestCache.get R = (manifestsOf (Step.broadcasts R) h).getLast?.or
      ((db.latestRoomManifest R).map RoomManifestRow.cached)
  highest : R ∈ p.state.byId → R ∉ p.state.held → ∀ row ∈ p.state.db.rowsOf R, ∃ c,
    p.state.manifestCache.get R = some c ∧ row.version ≤ c.version
  signed : ∀ d ∈ h, ∀ c, d.publishes R = some c → d.Signed env.crates R c
  locked : ∀ d ∈ h, ∀ c, d.delivers R = some c → d.before.Publishes R c ∧ R ∈ d.before.held
  idle : p.quiet → R ∉ p.state.held
  gone : ∀ d ∈ h, d.effect = .remove .manifestCache R → p.state.manifestCache.get R = none
  alone : ∀ d ∈ h, (∀ sec, d.effect ≠ .section R sec) → d.delivers R = none → d.LeavesManifests R

lemma ServerState.Restored.unended (hr : st₀.Restored R) : st₀.Unended R := by
  refine ⟨?_, hr.byId, hr.channel, fun hc => ?_, hr.held⟩
  · rintro ⟨s, hs, hended⟩
    rw [hr.running s hs] at hended
    cases hended
  · by_contra hno
    rw [hr.cache, if_neg hno] at hc
    cases hc

/-- Nothing has been published in a room that is not there. -/
lemma ClosingInv.uncached_of_none {gs : List Dues} (hI : ClosingInv R h st gs)
    (hR : st.heap.get R = none) : st.manifestCache.get R = none := by
  cases hc : st.manifestCache.get R with
  | none => rfl
  | some c =>
    have := (hI.cache (by rw [hc]; rfl)).1
    simp [hR] at this

/-- A room that runs has the channel that its creation has inserted. -/
lemma ClosingInv.channel_of_open {gs : List Dues} {s : RoomState} (hI : ClosingInv R h st gs)
    (hs : st.heap.get R = some s) (hopen : s.state ≠ .ended) :
    (st.tx.get R).isSome ↔ tally (Step.opens R) h = tally (Step.creates R) h := by
  have hzero : ¬0 < tally (Step.ends R) h := by
    intro hpos
    obtain ⟨t, ht, hended⟩ := hI.ended.2 hpos
    cases hs.symm.trans ht
    exact hopen hended
  have hremoved := hI.removed
  have hcleared := hI.cleared
  rw [hI.channel (by omega), hs]
  simp

/-- A step of no publication in `R` leaves what its task has to publish. -/
lemma publishing_other {d : Step} (hR : ∀ sec, d.effect ≠ .section R sec)
    (hdelivers : d.delivers R = none) (g : Option Pending) :
    (publishing env.crates R).next g d.effect d.resp = g := by
  obtain ⟨op, e, inp, resp, before, after⟩ := d
  cases e with
  | «section» id sec => exact if_neg fun hid => hR sec (by rw [hid])
  | putManifest id c =>
    refine if_neg fun hid => ?_
    simp [Step.delivers, hid] at hdelivers
  | publishManifest id c =>
    refine if_neg fun hid => ?_
    simp [Step.delivers, hid] at hdelivers
  | _ => rfl

/-- **The invariant holds in every run from a boot**, and a task that is done has nothing to
publish. -/
theorem publicationInv_of_run (r : RunFrom env guard st₀ h p) (h₀ : FreshInv st₀ [])
    (hr : st₀.Restored R) :
    PublicationInv env.crates.splitPublished
        ((st₀.db.latestRoomManifest R).map RoomManifestRow.cached) R h p.state
        (pendingIn env.crates R p) ∧
      ∀ t ∈ p.tasks, t.rest.Sat (publishing env.crates R) (fun _ g => g = none)
        (System.Task.ghost (publishing env.crates R) (fun _ => none) t) := by
  have hlawful := (pendingInv_of_runFrom R r hr.held).2
  have hunwritten := insertRoom_unwritten r h₀ hlawful
  -- what the steps find is known from the runs before them
  have hfound (d : Step) (hd : d ∈ h) : d.Lawful env.crates R ∧
      (d.before.heap.get R = none → d.before.manifestCache.get R = none) ∧
      ∀ s, d.effect = .insertRoom s → d.before.db.latestRoomManifest s.id = none := by
    refine ⟨hlawful d hd, fun hnone => ?_, hunwritten d hd⟩
    obtain ⟨-, h', p', r', hbefore, -⟩ := System.Run.before r d hd
    rw [← hbefore] at hnone ⊢
    exact (closingInv_of_runFrom R r' hr.unended).1.uncached_of_none hnone
  have hinv := System.Run.invariant (publishing env.crates R) (fun _ => none) (fun _ g => g = none)
    (fun h st gs => PendingInv R st gs ∧ PublicationInv env.crates.splitPublished
      ((st₀.db.latestRoomManifest R).map RoomManifestRow.cached) R h st gs)
    (program_publishing env R) ?_ (fun h st gs _ hI => ?_)
    (fun _ _ d _ hd => handled_answers hd) (fun h gs i g d hI hi ha hd hguard => ?_)
    (r.guarded hfound)
  · exact ⟨hinv.1.2, hinv.2⟩
  · refine ⟨⟨?_, ?_, fun g hg => absurd hg List.not_mem_nil⟩, ?_⟩
    · simp [List.count_eq_zero.2 hr.held]
    · simp [List.count_eq_zero.2 hr.held]
    · refine ⟨rfl, by simp, fun _ => ⟨rfl, rfl⟩, fun g hg => absurd hg List.not_mem_nil, rfl,
        fun hsome _ => ?_⟩
      rw [hr.cache, if_pos hsome]
      rfl
  · refine ⟨⟨by simpa using hI.1.held, hI.1.one, fun g hg => hI.1.publishes g (by simpa using hg)⟩,
      ?_⟩
    exact { hI.2 with
      settled := fun hall => hI.2.settled fun g hg => hall g (List.mem_append_left _ hg)
      pending := fun g hg => hI.2.pending g (by simpa using hg) }
  · refine ⟨hI.1.step hi ha hd, ?_⟩
    obtain ⟨hl, huncached, hfresh⟩ := hguard
    have hc := step_cases hd
    by_cases hR : ∃ sec, d.effect = .section R sec
    · obtain ⟨sec, he⟩ := hR
      cases hc with
      | «section» op inp before id sec' s out hs hfree hrun =>
        cases he
        have hnext : (publishing env.crates R).next g (.section R sec) out.reply =
            ((sec.published out.reply).map fun c => ⟨c, false⟩).or g := if_pos rfl
        rw [hnext]
        exact hI.2.section hI.1 hi hs hfree hrun
      | minor _ hminor => simp [he, Effect.isMajor] at hminor
      | _ => cases he
    have hnot (sec : Section) : d.effect ≠ .section R sec := fun he => hR ⟨sec, he⟩
    by_cases hdelivers : Step.delivers R d = none
    · rw [publishing_other hnot hdelivers, set_self hi]
      refine hI.2.leaves (leavesManifests hd hl.outside hnot hdelivers) ?_ hdelivers fun hsome => ?_
      · obtain ⟨op, e, inp, resp, before, after⟩ := d
        cases e with
        | «section» id sec => exact if_neg fun hid => hnot sec (by rw [hid])
        | _ => rfl
      · cases hbefore : d.before.heap.get R with
        | some s => exact .inl rfl
        | none =>
          -- the room comes now: it has no manifests, and nobody publishes in it
          have hempty : ∀ g ∈ gs, g = none := by
            intro g hg
            cases g with
            | none => rfl
            | some x =>
              obtain ⟨⟨s, hs, -⟩, -⟩ := hI.1.publishes x hg
              simp [hbefore] at hs
          refine .inr ⟨huncached hbefore, ?_, hempty⟩
          cases hc with
          | «section» op inp before id sec s out hs _ hrun =>
            have hid : out.state.id = id := (Section.run_framed hrun).id.trans (Heap.get_id hs)
            rw [ServerState.apply_heap, Heap.get_put, hid] at hsome
            split at hsome
            · rename_i hid
              exact absurd (hid ▸ rfl) (hnot sec)
            · simp [hbefore] at hsome
          | insertRoom op inp before s hfree =>
            rw [ServerState.insertRoom_heap, Heap.get_put] at hsome
            split at hsome
            · rename_i hid
              rw [hid]
              exact hfresh s rfl
            · simp [hbefore] at hsome
          | publish => simp [hbefore] at hsome
          | publishManifest => simp [hbefore] at hsome
          | remove => simp [hbefore] at hsome
          | insertCode op inp before code id =>
            replace hsome : (before.heap.get R).isSome := hsome
            simp [hbefore] at hsome
          | insertChannel op inp before id =>
            replace hsome : (before.heap.get R).isSome := hsome
            simp [hbefore] at hsome
          | putManifest op inp before id c =>
            replace hsome : (before.heap.get R).isSome := hsome
            simp [hbefore] at hsome
          | minor _ hminor hheap => simp [hheap, hbefore] at hsome
    · obtain ⟨c, hdelivers⟩ := Option.ne_none_iff_exists'.1 hdelivers
      cases hc with
      | putManifest op inp before id c' =>
        obtain ⟨rfl, rfl⟩ : id = R ∧ c' = c := by simpa [Step.delivers] using hdelivers
        obtain rfl := ha.2 rfl
        have hnext : (publishing env.crates id).next (some ⟨c', false⟩) (.putManifest id c') () =
            some ⟨c', true⟩ := if_pos rfl
        rw [hnext]
        exact hI.2.puts hI.1 hi
      | publishManifest op inp before id c' =>
        obtain ⟨rfl, rfl⟩ : id = R ∧ c' = c := by simpa [Step.delivers] using hdelivers
        obtain rfl := ha.2 rfl
        have hnext : (publishing env.crates id).next (some ⟨c', true⟩) (.publishManifest id c') () =
            none := if_pos rfl
        rw [hnext]
        exact hI.2.goesOut hI.1 hi
      | minor d hminor =>
        obtain ⟨op, e, inp, resp, before, after⟩ := d
        cases e <;> first | cases hdelivers | cases hminor
      | _ => cases hdelivers

/-- A room that is there stays. -/
lemma StepCase.room_stays {d : Step} (hc : StepCase env d) (hR : (d.before.heap.get R).isSome) :
    (d.after.heap.get R).isSome := by
  cases hc with
  | «section» op inp before id sec s out =>
    rw [ServerState.apply_heap, Heap.get_put]
    split
    · rfl
    · exact hR
  | insertRoom op inp before s =>
    rw [ServerState.insertRoom_heap, Heap.get_put]
    split
    · rfl
    · exact hR
  | publish | publishManifest | remove => simpa using hR
  | insertCode | insertChannel | putManifest => exact hR
  | minor _ _ hheap => rwa [hheap]

/-- **What is broadcast before a room has its channel comes before all that is heard.** -/
lemma listened_of_run (r : RunFrom env guard st₀ h p) (hr : st₀.Restored R) :
    manifestsOf (Step.broadcasts R) h =
        manifestsOf (Step.unheard R) h ++ manifestsOf (Step.heard R) h ∧
      (manifestsOf (Step.unheard R) h ≠ [] → 0 < tally (Step.creates R) h) ∧
      (manifestsOf (Step.heard R) h ≠ [] → (p.state.heap.get R).isSome ∧
        tally (Step.opens R) h = tally (Step.creates R) h) := by
  have hlawful := (pendingInv_of_runFrom R r hr.held).2
  refine System.Run.history_invariant (fun h st => manifestsOf (Step.broadcasts R) h =
      manifestsOf (Step.unheard R) h ++ manifestsOf (Step.heard R) h ∧
    (manifestsOf (Step.unheard R) h ≠ [] → 0 < tally (Step.creates R) h) ∧
    (manifestsOf (Step.heard R) h ≠ [] → (st.heap.get R).isSome ∧
      tally (Step.opens R) h = tally (Step.creates R) h))
    ⟨rfl, fun hne => absurd rfl hne, fun hne => absurd rfl hne⟩
    (fun h p d p' r r' hbefore hafter hd hI => ?_) (r.guarded hlawful)
  obtain ⟨hsplit, hunheard, hheard⟩ := hI
  have hc := step_cases hd
  have hclosing := (closingInv_of_runFrom R r hr.unended).1
  have hclosing' := (closingInv_of_runFrom R r' hr.unended).1
  rw [← hbefore] at hclosing
  -- a room that is there is not created again, and gets no second channel
  have hkept (hsome : (d.before.heap.get R).isSome)
      (hopens : tally (Step.opens R) h = tally (Step.creates R) h) :
      tally (Step.opens R) (h ++ [d]) = tally (Step.creates R) (h ++ [d]) := by
    have hcreates : Step.creates R d = false := by
      cases hc with
      | insertRoom op inp before s hfree =>
        refine decide_eq_false ?_
        rintro rfl
        simp [hfree] at hsome
      | minor d hminor =>
        obtain ⟨op, e, inp, resp, before, after⟩ := d
        cases e <;> first | rfl | cases hminor
      | _ => rfl
    have := hclosing'.opened
    rw [tally_append, tally_append, hcreates] at this ⊢
    simp only [Bool.false_eq_true, if_false, Nat.add_zero] at this ⊢
    omega
  have hgrows : tally (Step.creates R) h ≤ tally (Step.creates R) (h ++ [d]) := by
    rw [tally_append]
    exact Nat.le_add_right _ _
  cases hb : Step.broadcasts R d with
  | none =>
    have hu : Step.unheard R d = none := by simp [Step.unheard, hb]
    have hh : Step.heard R d = none := by simp [Step.heard, hb]
    simp only [manifestsOf_append, hb, hu, hh, Option.toList_none, List.append_nil]
    refine ⟨hsplit, fun hne => (hunheard hne).trans_le hgrows, fun hne => ?_⟩
    obtain ⟨hsome, hopens⟩ := hheard hne
    exact ⟨hc.room_stays hsome, hkept hsome hopens⟩
  | some c =>
    obtain ⟨s, hs, hopen⟩ : ∃ s, d.before.heap.get R = some s ∧ s.state ≠ .ended := by
      obtain ⟨-, -, -, -, -, hl⟩ := System.Run.before r' d (by simp)
      have hdelivers : Step.delivers R d = some c := by
        obtain ⟨op, e, inp, resp, before, after⟩ := d
        cases e <;> first | exact hb | cases hb
      obtain ⟨⟨⟨s, hs, hopen, -⟩, -⟩, -⟩ := hl.delivers c hdelivers
      exact ⟨s, hs, hopen⟩
    have hchannel := hclosing.channel_of_open hs hopen
    have hsome : (d.before.heap.get R).isSome := by rw [hs]; rfl
    by_cases htx : (d.before.tx.get R).isSome
    · have hu : Step.unheard R d = none := by simp [Step.unheard, htx]
      have hh : Step.heard R d = some c := by simp [Step.heard, htx, hb]
      simp only [manifestsOf_append, hb, hu, hh, Option.toList_none, Option.toList_some,
        List.append_nil]
      refine ⟨by rw [hsplit, List.append_assoc], fun hne => (hunheard hne).trans_le hgrows,
        fun _ => ⟨hc.room_stays hsome, hkept hsome (hchannel.1 htx)⟩⟩
    · have hu : Step.unheard R d = some c := by simp [Step.unheard, htx, hb]
      have hh : Step.heard R d = none := by simp [Step.heard, htx]
      simp only [manifestsOf_append, hb, hu, hh, Option.toList_none, Option.toList_some,
        List.append_nil]
      have hnone : manifestsOf (Step.heard R) h = [] := by
        by_contra hne
        exact htx (hchannel.2 (hheard hne).2)
      refine ⟨by rw [hsplit, hnone, List.append_nil, List.append_nil], fun _ => ?_,
        fun hne => absurd hnone hne⟩
      have := hclosing.opened
      have hne : tally (Step.opens R) h ≠ tally (Step.creates R) h := fun h => htx (hchannel.2 h)
      omega

/-- The rows of a boot. -/
lemma freshInv_boot {db : Db} (hdb : db.Sound) (wallMs : Uuid → ℕ) :
    FreshInv (boot db wallMs) [] := by
  refine ⟨fun id hsome => (boot_restored hdb wallMs id).1.row hsome,
    fun id c hc => absurd hc List.not_mem_nil, fun id hnone => ?_⟩
  rw [(boot_restored hdb wallMs id).2] at hnone ⊢
  exact hdb.referenced id hnone

/-- **Manifests are published in order**, in every run from a boot. -/
theorem publication_order (env : Env) {db : Db} (hdb : db.Sound) (wallMs : Uuid → ℕ)
    {h : List Step} {p : Tasks} (r : RunFrom env anyStep (boot db wallMs) h p) (R : Uuid) :
    PublicationOrder env db R h p := by
  obtain ⟨hrestored, hstore⟩ := boot_restored hdb wallMs R
  obtain ⟨hI, hdone⟩ := publicationInv_of_run r (freshInv_boot hdb wallMs) hrestored
  obtain ⟨hpending, hlawful⟩ := pendingInv_of_runFrom R r hrestored.held
  obtain ⟨hlistened, hunheard, -⟩ := listened_of_run r hrestored
  have hclosing := (closingInv_of_runFrom R r hrestored.unended).1
  rw [hstore] at hI
  have huncached := hclosing.uncached
  have hcache (hR : R ∈ p.state.byId) : p.state.manifestCache.get R =
      (manifestsOf (Step.caches R) h).getLast?.or
        ((db.latestRoomManifest R).map RoomManifestRow.cached) := by
    obtain ⟨hsome, hzero⟩ := hclosing.byId.1 hR
    exact hI.cache hsome (by omega)
  have hcurrent (hR : R ∈ p.state.byId) (hfree : R ∉ p.state.held) : p.state.manifestCache.get R =
      (p.state.db.latestRoomManifest R).map RoomManifestRow.cached := by
    rw [hcache hR, hI.latest, (hI.settled (hpending.none_of_free hfree)).1]
  have hfirst : ((((db.latestRoomManifest R).map RoomManifestRow.cached).map (·.version)).getD 0) =
      db.topVersion R := (Db.topVersion_eq db R).symm
  constructor
  case versions => simpa only [hfirst] using hI.versions
  case ordered =>
    by_cases hnone : ∀ g ∈ pendingIn env.crates R p, g = none
    · exact ⟨[], by rw [(hI.settled hnone).2, List.append_nil], Nat.zero_le _, fun _ => rfl⟩
    · push Not at hnone
      obtain ⟨g, hg, hne⟩ := hnone
      obtain ⟨x, rfl⟩ := Option.ne_none_iff_exists'.1 hne
      exact ⟨[x.manifest], (hI.pending x hg).1, Nat.le_refl _,
        fun hfree => absurd (hpending.mem_held hg) hfree⟩
  case listened => exact hlistened
  case restored =>
    intro hcreates
    by_contra hne
    have hzero : tally (Step.creates R) h = 0 :=
      List.countP_eq_zero.2 fun d hd => by simp [hcreates d hd]
    have := hunheard hne
    omega
  case broadcast => exact hI.broadcast
  case current => exact hcurrent
  case behind =>
    intro hR
    by_cases hnone : ∀ g ∈ pendingIn env.crates R p, g = none
    · exact .inl (by rw [hcache hR, hI.latest, (hI.settled hnone).1])
    · push Not at hnone
      obtain ⟨g, hg, hne⟩ := hnone
      obtain ⟨x, rfl⟩ := Option.ne_none_iff_exists'.1 hne
      have hcached := (hI.pending x hg).2
      split at hcached
      · exact .inl (by rw [hcache hR, hI.latest, hcached])
      · exact .inr (by rw [hcache hR, hcached])
  case highest =>
    intro hR hfree row hrow
    rw [hcurrent hR hfree]
    cases hlatest : p.state.db.latestRoomManifest R with
    | none =>
      rw [Db.latest_eq_least] at hlatest
      cases hrows : p.state.db.rowsOf R <;> simp_all [least]
    | some latest => exact ⟨_, rfl, Db.version_le_latest hlatest row hrow⟩
  case signed =>
    exact fun d hd c hpub => signed_of_publishes (RunFrom.handled r d hd)
      (hlawful d hd).outside hpub
  case locked => exact fun d hd c hc => (hlawful d hd).delivers c hc
  case idle =>
    intro hquiet hmem
    have hnone : ∀ g ∈ pendingIn env.crates R p, ¬g.isSome := by
      intro g hg
      obtain ⟨t, ht, rfl⟩ := List.mem_map.1 hg
      obtain ⟨a, ha⟩ := Option.isSome_iff_exists.1 (hquiet t ht)
      rw [System.sat_of_result (A := publishing env.crates R) (Q := fun _ g => g = none)
        (hdone t ht) ha]
      simp
    have hheld := hpending.held
    rw [List.countP_eq_zero.2 hnone] at hheld
    exact List.count_eq_zero.1 hheld.symm hmem
  case gone =>
    intro d hd he
    rw [← Option.not_isSome_iff_eq_none]
    intro hsome
    have hpos : 0 < tally (Step.removes .manifestCache R) h :=
      List.countP_pos_iff.2 ⟨d, hd, by simp [Step.removes, he]⟩
    have := (hclosing.cache hsome).2
    omega
  case alone =>
    exact fun d hd hnot hdelivers =>
      leavesManifests (RunFrom.handled r d hd) (hlawful d hd).outside hnot hdelivers

/-! ### A host who publishes -/

namespace Republished

/-- A manifest of a room. -/
def manifest (roomId : String) : MediaManifest where
  manifestVersion := 1
  roomId := roomId
  media := []
  subtitles := []
  createdAt := 0
  hostSignature := some ⟨"", "", ""⟩

/-- The room `1` of the user `1`, with the third manifest published in it. -/
def db : Db where
  rooms := AList.insert 1 ⟨1, "ABCDEF", "room", 1, PubKey.filled 0, true, .open, none, 0, none⟩ ∅
  participants :=
    AList.insert (1, 1) ⟨PubKey.filled 0, "", true, 0, none, 0, .connected, Cap.host⟩ ∅
  manifests := AList.insert 1 [⟨3, 0, manifest "1", Vector.replicate 32 0, 1⟩] ∅

lemma db_sound : db.Sound := by
  refine ⟨fun id row h => ?_, fun id h => ?_⟩
  · simp only [db, AList.get_insert] at h
    split at h
    · rename_i hid
      cases h
      exact hid.symm
    · simp at h
  · have hid : id ≠ 1 := by
      rintro rfl
      cases h
    have hrows : db.manifests.get id = none := by
      rw [db, AList.get_insert, if_neg hid]
      rfl
    rw [Db.latestRoomManifest, hrows]

/-- The host of a room publishes. -/
def publish (id : Uuid) : Op :=
  .dispatch ⟨some id, none, .manifestPublish (.ok (manifest (toString id))), 0⟩ 1 (PubKey.filled 0)

/-- Two publications; the second has been checked before the first takes the lock. -/
def moves : List (Move Op Input) :=
  .spawn (publish 1) :: steps 0 6 (.plain [1] 0 "") ++
  .spawn (publish 1) :: steps 1 6 (.plain [1] 0 "") ++
  steps 0 3 (.plain [1] 0 "") ++ steps 1 3 (.plain [1] 0 "")

lemma played_moves : (playedFrom .plain (boot db fun _ => 0) moves).isSome = true := by
  decide +kernel

/-- A publication that has stored its manifest and not cached it. -/
def stored : List (Move Op Input) := .spawn (publish 1) :: steps 0 7 (.plain [1] 0 "")

lemma played_stored : (playedFrom .plain (boot db fun _ => 0) stored).isSome = true := by
  decide +kernel

/-- A publication in a room that has not yet its channel, and one after. -/
def early : List (Move Op Input) :=
  .spawn (.create "room" 1 (PubKey.filled 0) true 0) :: steps 0 8 (.plain [] 10 "ABCDEF") ++
  .spawn (publish 10) :: steps 1 9 (.plain [10] 0 "") ++ steps 0 2 (.plain [10] 0 "") ++
  .spawn (publish 10) :: steps 2 9 (.plain [10] 0 "")

lemma played_early : (playedFrom .plain (boot .empty fun _ => 0) early).isSome = true := by
  decide +kernel

end Republished

/-- Between the insertion of a row and the write to the cache, the cache is behind the rows; and the
first version of a room that has not yet its channel is broadcast to nobody. -/
theorem publication_order_fails :
    (∃ h p, RunFrom .plain anyStep (boot Republished.db fun _ => 0) h p ∧ 1 ∈ p.state.byId ∧
      (p.state.manifestCache.get 1).map (·.version) = some 3 ∧ p.state.db.topVersion 1 = 4) ∧
    ∃ h p, RunFrom .plain anyStep (boot .empty fun _ => 0) h p ∧ p.quiet ∧
      (manifestsOf (Step.publishes 10) h).map (·.version) = [1, 2] ∧
        (manifestsOf (Step.heard 10) h).map (·.version) = [2] := by
  constructor
  · have r : RunFrom .plain anyStep (boot Republished.db fun _ => 0) _ _ :=
      runFrom_of_played Republished.played_stored fun _ _ => trivial
    exact ⟨_, _, r, by decide +kernel, by decide +kernel, by decide +kernel⟩
  · have r : RunFrom .plain anyStep (boot .empty fun _ => 0) _ _ :=
      runFrom_of_played Republished.played_early fun _ _ => trivial
    exact ⟨_, _, r, by decide +kernel, by decide +kernel, by decide +kernel⟩

/-- The fourth and the fifth manifest follow the third. -/
theorem publication_order_republished : ∃ h p,
    RunFrom .plain anyStep (boot Republished.db fun _ => 0) h p ∧
      PublicationOrder .plain Republished.db 1 h p ∧ p.quiet ∧
      (manifestsOf (Step.heard 1) h).map (·.version) = [4, 5] := by
  have r : RunFrom .plain anyStep (boot Republished.db fun _ => 0) _ _ :=
    runFrom_of_played Republished.played_moves fun _ _ => trivial
  exact ⟨_, _, r, publication_order .plain Republished.db_sound _ r 1, by decide +kernel,
    by decide +kernel⟩

end Locast.Server
