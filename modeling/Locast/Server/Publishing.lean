import Locast.Server.Outside

/-!
# The lock of a publication

A publication keeps its room's lock while it caches and publishes what it has stored.  `PendingInv`
relates what the tasks have still to publish in a room to that lock: one task at most has it, the
room runs with the publisher as its host, and the manifest is the one stored last.
-/

namespace Locast.Server

open Locast.Lib Locast.Protocol Locast.Rooms

variable {env : Env} {guard : List Step → Step → Prop} {st₀ st st' : ServerState} {h : List Step}
  {p : Tasks} {R : Uuid}

/-! ### The invariant -/

/-- The room runs, the publisher of the manifest is its host, and the manifest is the latest
stored. -/
structure ServerState.Publishes (st : ServerState) (R : Uuid) (c : CachedManifest) : Prop where
  hosted : ∃ s, st.heap.get R = some s ∧ s.state ≠ .ended ∧
    ∃ pubkey, s.isPublishingHost c.hostUserId pubkey = true
  stored : (st.db.latestRoomManifest R).map RoomManifestRow.cached = some c

/-- **The publications of `R` under way.** -/
structure PendingInv (R : Uuid) (st : ServerState) (gs : List (Option Pending)) : Prop where
  held : gs.countP Option.isSome = st.held.count R
  one : st.held.count R ≤ 1
  publishes : ∀ g, some g ∈ gs → st.Publishes R g.manifest

variable {gs : List (Option Pending)} {i : ℕ} {g g' : Option Pending}

/-- What one task has to publish counts. -/
lemma PendingInv.count_set (hI : PendingInv R st gs) (hi : gs[i]? = some g)
    (g' : Option Pending) :
    (gs.set i g').countP Option.isSome + (if g.isSome then 1 else 0) =
      st.held.count R + if g'.isSome then 1 else 0 := by
  obtain ⟨hlt, rfl⟩ := List.getElem?_eq_some_iff.1 hi
  have hpos : (if gs[i].isSome then 1 else 0) ≤ gs.countP Option.isSome := by
    split
    · exact List.countP_pos_iff.2 ⟨_, List.getElem_mem hlt, ‹_›⟩
    · exact Nat.zero_le _
  rw [List.countP_set hlt, ← hI.held]
  omega

/-- Only the task that publishes has the lock. -/
lemma PendingInv.mem_held (hI : PendingInv R st gs) {g : Pending} (hi : some g ∈ gs) :
    R ∈ st.held := by
  rw [← List.count_pos_iff, ← hI.held]
  exact List.countP_pos_iff.2 ⟨_, hi, rfl⟩

/-- Nobody publishes in a room whose lock is free. -/
lemma PendingInv.none_of_free (hI : PendingInv R st gs) (hfree : R ∉ st.held) :
    ∀ g ∈ gs, g = none := by
  have hzero : gs.countP Option.isSome = 0 := by rw [hI.held, List.count_eq_zero.2 hfree]
  intro g hg
  simpa using List.countP_eq_zero.1 hzero g hg

/-- Beside the task that publishes, nobody does. -/
lemma PendingInv.only {x y : Pending} (hI : PendingInv R st gs) (hi : gs[i]? = some (some x))
    (hy : some y ∈ gs.set i g') : some y = g' := by
  have hcount := hI.count_set hi none
  have hone := hI.one
  have hzero : (gs.set i none).countP Option.isSome = 0 := by
    simp only [Option.isSome_some, Option.isSome_none, if_true, Bool.false_eq_true, if_false]
      at hcount
    omega
  obtain ⟨j, hj⟩ := List.getElem?_of_mem hy
  rw [List.getElem?_set] at hj
  by_cases hij : i = j
  · rw [if_pos hij] at hj
    split at hj
    · exact (Option.some.inj hj).symm
    · cases hj
  · -- the others' entries are those of the list without the task's
    rw [if_neg hij] at hj
    have hmem : some y ∈ gs.set i none :=
      List.mem_of_getElem? (by rw [List.getElem?_set, if_neg hij]; exact hj)
    exact absurd rfl (List.countP_eq_zero.1 hzero _ hmem)

/-- Everything that holds of `R` still does. -/
lemma PendingInv.congr (hI : PendingInv R st gs) (hheld : st'.held.count R = st.held.count R)
    (hroom : (st.heap.get R).isSome → st'.heap.get R = st.heap.get R)
    (hlatest : st'.db.latestRoomManifest R = st.db.latestRoomManifest R) : PendingInv R st' gs := by
  refine ⟨by rw [hheld, hI.held], by rw [hheld]; exact hI.one, fun g hg => ?_⟩
  obtain ⟨⟨s, hs, hopen, hhost⟩, hstored⟩ := hI.publishes g hg
  exact ⟨⟨s, by rw [hroom (by rw [hs]; rfl), hs], hopen, hhost⟩, by rw [hlatest, hstored]⟩

/-- The task's memory changes, but not what it publishes or whether. -/
lemma PendingInv.set (hI : PendingInv R st gs) (hi : gs[i]? = some g)
    (hg : g'.map Pending.manifest = g.map Pending.manifest) : PendingInv R st (gs.set i g') := by
  have hsome : g'.isSome = g.isSome := by
    simpa [Option.isSome_map] using congrArg Option.isSome hg
  have hcount := hI.count_set hi g'
  rw [hsome] at hcount
  refine ⟨Nat.add_right_cancel hcount, hI.one, fun g₁ hg₁ => ?_⟩
  rcases List.mem_or_eq_of_mem_set hg₁ with hg₁ | rfl
  · exact hI.publishes g₁ hg₁
  · obtain ⟨g₂, rfl, hmanifest⟩ := Option.map_eq_some_iff.1 hg.symm
    rw [← hmanifest]
    exact hI.publishes g₂ (List.mem_of_getElem? hi)

/-! ### Steps -/

/-- Outside the locks nothing is written to the manifests. -/
lemma manifests_of_minor {d : Step} (hd : (system env).Handled d)
    (hminor : d.effect.isMajor = false) (ho : d.effect.outside env.crates) :
    d.after.db.manifests = d.before.db.manifests := by
  obtain ⟨op, e, inp, r, before, after⟩ := d
  have h : Effect.handle env e inp before = some (r, after) := hd
  cases e with
  | store request =>
    cases h
    let store : Store := ⟨before.db, inp.faults⟩
    have hkeeps : (store.exec request).2.db.manifests = before.db.manifests :=
      Store.exec_keeps (P := fun db => db.manifests = before.db.manifests)
        (fun db' he => Db.exec_manifests he ho) rfl
    exact hkeeps
  | «section» | publish | putManifest | publishManifest => cases hminor
  | insertRoom | insertCode | insertChannel | remove => cases hminor
  | _ => rw [(handle_benign rfl h).2.2.2.1]

/-- A section on `R` finds the lock free, and keeps it for what it has stored. -/
lemma PendingInv.section {inp : Input} {sec : Section} {s : RoomState}
    {out : SectionOutcome sec.Reply} (hI : PendingInv R st gs) (hi : gs[i]? = some g)
    (hs : st.heap.get R = some s) (hfree : R ∉ st.held)
    (hrun : sec.run ⟨env.cfg, env.crates, inp.clockMs⟩ ⟨st.db, inp.faults⟩ s = some out) :
    PendingInv R (st.apply R out)
      (gs.set i (((sec.published out.reply).map fun c => ⟨c, false⟩).or g)) := by
  have hM := Section.run_manifests hrun
  have hid : s.id = R := Heap.get_id hs
  have hnone := hI.none_of_free hfree
  obtain rfl : g = none := hnone g (List.mem_of_getElem? hi)
  have hcount := hI.count_set hi (((sec.published out.reply).map fun c => ⟨c, false⟩).or none)
  have hzero : st.held.count R = 0 := List.count_eq_zero.2 hfree
  have hheld := ServerState.apply_held st R out
  rw [hM.held] at hheld
  cases hc : sec.published out.reply with
  | none =>
    rw [hc] at hheld hcount
    have hheld : (st.apply R out).held = st.held := by simpa using hheld
    refine ⟨by simpa [hheld] using hcount, by rw [hheld]; exact hI.one, fun g hg => ?_⟩
    rcases List.mem_or_eq_of_mem_set hg with hg | hg
    · exact absurd (hnone _ hg) (by simp)
    · simp at hg
  | some c =>
    rw [hc] at hheld hcount
    have hheld : (st.apply R out).held = R :: st.held := by simpa using hheld
    refine ⟨?_, by rw [hheld, List.count_cons_self, hzero], fun g hg => ?_⟩
    · rw [hheld, List.count_cons_self]
      simpa using hcount
    · rcases List.mem_or_eq_of_mem_set hg with hg | hg
      · exact absurd (hnone _ hg) (by simp)
      · obtain rfl : g = ⟨c, false⟩ := by simpa using hg
        obtain ⟨hopen, pubkey, hhost⟩ := hM.hosted c hc
        have hkept : out.held = true := by rw [hM.held, hc]; rfl
        refine ⟨⟨s, ?_, hopen, pubkey, hhost⟩, ?_⟩
        · simp [(Section.run_held hrun hkept).2.2, hid]
        · have hlatest := hM.latest
          rw [hc, hid] at hlatest
          simpa using hlatest

/-- **Every step keeps the publications of `R`.** -/
lemma PendingInv.step {d : Step} (hI : PendingInv R d.before gs) (hi : gs[i]? = some g)
    (ha : (publishing env.crates R).allows g d.effect) (hd : (system env).Handled d) :
    PendingInv R d.after (gs.set i ((publishing env.crates R).next g d.effect d.resp)) := by
  have hc := step_cases hd
  obtain ⟨ho, ha⟩ := ha
  have hkept {st' : ServerState} (hI : PendingInv R st' gs) : PendingInv R st' (gs.set i g) :=
    hI.set hi rfl
  cases hc with
  | «section» op inp before id sec s out hs hfree hrun =>
    by_cases hid : id = R
    · subst hid
      have hnext : (publishing env.crates id).next g (.section id sec) out.reply =
          ((sec.published out.reply).map fun c => ⟨c, false⟩).or g := if_pos rfl
      rw [hnext]
      exact hI.section hi hs hfree hrun
    · have hnext : (publishing env.crates R).next g (.section id sec) out.reply = g := if_neg hid
      have hout : out.state.id = id := (Section.run_framed hrun).id.trans (Heap.get_id hs)
      rw [hnext]
      refine hkept (hI.congr ?_ (fun _ => ?_) ?_)
      · rw [ServerState.apply_held]
        split
        · exact List.count_cons_of_ne hid
        · rfl
      · rw [ServerState.apply_heap, Heap.get_put, hout, if_neg fun h => hid h.symm]
      · rw [ServerState.apply_db]
        exact Section.run_otherManifests hrun (by rw [Heap.get_id hs]; exact fun h => hid h.symm)
  | insertRoom op inp before s hfree =>
    refine hkept (hI.congr rfl (fun hsome => ?_) rfl)
    rw [ServerState.insertRoom_heap, Heap.get_put, if_neg]
    rintro rfl
    simp [hfree] at hsome
  | insertCode | insertChannel => exact hkept (hI.congr rfl (fun _ => rfl) rfl)
  | putManifest op inp before id c =>
    by_cases hid : id = R
    · obtain rfl := ha hid
      have hnext : (publishing env.crates R).next (some ⟨c, false⟩) (.putManifest id c) () =
          some ⟨c, true⟩ := if_pos hid
      rw [hnext]
      have hput : PendingInv R (before.putManifest id c) gs := hI.congr rfl (fun _ => rfl) rfl
      exact hput.set hi rfl
    · have hnext : (publishing env.crates R).next g (.putManifest id c) () = g := if_neg hid
      rw [hnext]
      exact hkept (hI.congr rfl (fun _ => rfl) rfl)
  | publishManifest op inp before id c =>
    by_cases hid : id = R
    · subst hid
      obtain rfl := ha rfl
      have hnext : (publishing env.crates id).next (some ⟨c, true⟩) (.publishManifest id c) () =
          none := if_pos rfl
      rw [hnext]
      have hcount := hI.count_set hi none
      have hone : before.held.count id ≤ 1 := hI.one
      have hmem := hI.mem_held (List.mem_of_getElem? hi)
      have hpos := List.count_pos_iff.2 hmem
      simp only [Option.isSome_some, Option.isSome_none, if_true, Bool.false_eq_true, if_false]
        at hcount
      have hzero : (gs.set i none).countP Option.isSome = 0 := by omega
      refine ⟨?_, ?_, fun g hg => ?_⟩
      · rw [hzero, ServerState.publishManifest_held, List.count_erase_self]
        omega
      · rw [ServerState.publishManifest_held, List.count_erase_self]
        omega
      · exact absurd rfl (List.countP_eq_zero.1 hzero _ hg)
    · have hnext : (publishing env.crates R).next g (.publishManifest id c) () = g := if_neg hid
      rw [hnext]
      refine hkept (hI.congr ?_ (fun _ => by simp) (by simp))
      rw [ServerState.publishManifest_held, List.count_erase_of_ne fun h => hid h.symm]
  | publish op inp before id item => exact hkept (hI.congr (by simp) (fun _ => by simp) (by simp))
  | remove op inp before map id =>
    refine hkept (hI.congr ?_ (fun _ => by simp) (by simp))
    cases map <;> rfl
  | minor _ hminor hheap htx hbyId hcode hcache hheld =>
    have hnext : (publishing env.crates R).next g d.effect d.resp = g := by
      obtain ⟨op, e, inp, r, before, after⟩ := d
      cases e with
      | «section» | putManifest | publishManifest => cases hminor
      | _ => rfl
    rw [hnext]
    exact hkept (hI.congr (by rw [hheld]) (fun _ => by rw [hheap])
      (Db.latest_congr (by rw [manifests_of_minor hd hminor ho])))

/-! ### Runs -/

/-- The manifest that a step caches or publishes in `R`, after its section. -/
def Step.delivers (R : Uuid) (d : Step) : Option CachedManifest :=
  match d.effect with
  | .putManifest id c | .publishManifest id c => if id = R then some c else none
  | _ => none

/-- What a step of a run does outside the locks, and what it finds when it ends a publication. -/
structure Step.Lawful (crates : Crates) (R : Uuid) (d : Step) : Prop where
  outside : d.effect.outside crates
  delivers : ∀ c, d.delivers R = some c → d.before.Publishes R c ∧ R ∈ d.before.held

/-- What the tasks of a pool have still to publish in `R`. -/
def pendingIn (crates : Crates) (R : Uuid) (p : Tasks) : List (Option Pending) :=
  p.tasks.map (System.Task.ghost (publishing crates R) fun _ => none)

lemma PendingInv.lawful {d : Step} (hI : PendingInv R d.before gs) (hi : gs[i]? = some g)
    (ha : (publishing env.crates R).allows g d.effect) : d.Lawful env.crates R := by
  refine ⟨ha.1, fun c hc => ?_⟩
  obtain ⟨op, e, inp, r, before, after⟩ := d
  have hfound {b : Bool} (hg : g = some ⟨c, b⟩) : before.Publishes R c ∧ R ∈ before.held := by
    subst hg
    have hmem := List.mem_of_getElem? hi
    exact ⟨hI.publishes _ hmem, hI.mem_held hmem⟩
  cases e with
  | putManifest id c' =>
    simp only [Step.delivers] at hc
    split at hc
    · rename_i hid
      cases hc
      exact hfound (ha.2 hid)
    · cases hc
  | publishManifest id c' =>
    simp only [Step.delivers] at hc
    split at hc
    · rename_i hid
      cases hc
      exact hfound (ha.2 hid)
    · cases hc
  | _ => cases hc

/-- **The publications of `R` in every run**, from a server that holds no lock of `R`. -/
theorem pendingInv_of_runFrom (R : Uuid) (r : RunFrom env guard st₀ h p) (h₀ : R ∉ st₀.held) :
    PendingInv R p.state (pendingIn env.crates R p) ∧ ∀ d ∈ h, d.Lawful env.crates R := by
  refine (System.Run.invariant (publishing env.crates R) (fun _ => none) (fun _ g => g = none)
    (fun h st gs => PendingInv R st gs ∧ ∀ d ∈ h, Step.Lawful env.crates R d)
    (program_publishing env R) ⟨⟨?_, ?_, fun g hg => absurd hg List.not_mem_nil⟩,
      fun d hd => absurd hd List.not_mem_nil⟩ (fun h st gs _ hI => ?_)
    (fun _ _ d _ hd => handled_answers hd) (fun h gs i g d hI hi ha hd _ => ?_) r).1
  · simp [List.count_eq_zero.2 h₀]
  · simp [List.count_eq_zero.2 h₀]
  · refine ⟨⟨by simpa using hI.1.held, hI.1.one, fun g hg => ?_⟩, hI.2⟩
    exact hI.1.publishes g (by simpa using hg)
  · refine ⟨hI.1.step hi ha hd, fun d' hd' => ?_⟩
    rcases List.mem_append.1 hd' with hd' | hd'
    · exact hI.2 d' hd'
    · rw [List.mem_singleton.1 hd']
      exact hI.1.lawful hi ha

/-! ### A lock that no task holds -/

/-- Where the lock of `R` is held and nobody publishes, it stays held and nobody publishes. -/
lemma stuck_step {d : Step} (hheld : R ∈ d.before.held)
    (ha : (publishing env.crates R).allows none d.effect) (hd : (system env).Handled d) :
    R ∈ d.after.held ∧ (publishing env.crates R).next none d.effect d.resp = none ∧
      d.Lawful env.crates R := by
  have hc := step_cases hd
  obtain ⟨ho, ha⟩ := ha
  have hlawful (h : d.delivers R = none) : d.Lawful env.crates R :=
    ⟨ho, fun c hc => by rw [h] at hc; cases hc⟩
  cases hc with
  | «section» op inp before id sec s out hs hfree hrun =>
    have hid : id ≠ R := by
      rintro rfl
      exact hfree hheld
    refine ⟨?_, if_neg hid, hlawful rfl⟩
    rw [ServerState.apply_held]
    split
    · exact List.mem_cons_of_mem _ hheld
    · exact hheld
  | putManifest op inp before id c =>
    have hid : id ≠ R := fun h => by cases ha h
    exact ⟨hheld, if_neg hid, hlawful (if_neg hid)⟩
  | publishManifest op inp before id c =>
    have hid : id ≠ R := fun h => by cases ha h
    refine ⟨?_, if_neg hid, hlawful (if_neg hid)⟩
    rw [ServerState.publishManifest_held]
    exact (List.mem_erase_of_ne hid.symm).2 hheld
  | insertRoom | insertCode | insertChannel => exact ⟨hheld, rfl, hlawful rfl⟩
  | publish op inp before id item =>
    exact ⟨by rw [ServerState.publish_held]; exact hheld, rfl, hlawful rfl⟩
  | remove op inp before map id =>
    refine ⟨?_, rfl, hlawful rfl⟩
    cases map <;> exact hheld
  | minor _ hminor _ _ _ _ _ hkept =>
    obtain ⟨op, e, inp, r, before, after⟩ := d
    rw [show after.held = before.held from hkept]
    cases e with
    | «section» | putManifest | publishManifest => cases hminor
    | _ => exact ⟨hheld, rfl, hlawful rfl⟩

/-- **What every step finds in `R`**, in runs from any server. -/
theorem lawful_of_runFrom (R : Uuid) (r : RunFrom env guard st₀ h p) :
    ∀ d ∈ h, d.Lawful env.crates R := by
  by_cases h₀ : R ∈ st₀.held
  · have hinv := System.Run.invariant (publishing env.crates R) (fun _ => none)
      (fun _ g => g = none)
      (fun h st gs => R ∈ st.held ∧ (∀ g ∈ gs, g = none) ∧ ∀ d ∈ h, Step.Lawful env.crates R d)
      (program_publishing env R) ⟨h₀, fun _ hg => absurd hg List.not_mem_nil,
        fun _ hd => absurd hd List.not_mem_nil⟩
      (fun h st gs _ hI => ⟨hI.1, fun g hg => by
        rcases List.mem_append.1 hg with hg | hg
        · exact hI.2.1 g hg
        · exact List.mem_singleton.1 hg, hI.2.2⟩)
      (fun _ _ d _ hd => handled_answers hd) (fun h gs i g d hI hi ha hd _ => ?_) r
    · exact hinv.1.2.2
    · obtain rfl : g = none := hI.2.1 g (List.mem_of_getElem? hi)
      obtain ⟨hheld, hnext, hlawful⟩ := stuck_step hI.1 ha hd
      refine ⟨hheld, fun g hg => ?_, fun d' hd' => ?_⟩
      · rcases List.mem_or_eq_of_mem_set hg with hg | rfl
        · exact hI.2.1 g hg
        · exact hnext
      · rcases List.mem_append.1 hd' with hd' | hd'
        · exact hI.2.2 d' hd'
        · rw [List.mem_singleton.1 hd']
          exact hlawful
  · exact (pendingInv_of_runFrom R r h₀).2

end Locast.Server
