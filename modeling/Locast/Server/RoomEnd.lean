import Locast.Rooms.PlaybackLog
import Locast.Server.Codes
import Locast.Server.Ending
import Locast.Server.Play

/-!
# A room ends once

What the end of a room looks like from outside, over every run: who is told, what is persisted, what
is removed and what stays.  A room whose task has not yet inserted its channel can end too; then
nobody is told, and the code and the channel come after the removal.
-/

namespace Locast.Server

open Locast.Lib Locast.Protocol Locast.Rooms

variable {env : Env} {guard : List Step → Step → Prop} {h : List Step} {p : Tasks} {R : Uuid}

/-! ### The end of a room, from outside -/

/-- The store's `end_room` is called for `R`. -/
def Step.CallsEndRoom (cfg : RoomRegistryConfig) (R : Uuid) (d : Step) : Prop :=
  match d.effect with
  | .store (.endRoom id _) => id = R
  | .section id (.leave u intentional nowMs) => id = R ∧ ∃ s out, d.before.heap.get R = some s ∧
      leaveLocked cfg s u intentional nowMs = some out ∧ .endRoom R nowMs ∈ out.requests
  | _ => False

/-- A tick of grace finds a room that has ended, with a deadline that has passed. -/
def Step.runsOutAgain (R : Uuid) (d : Step) : Bool :=
  match d.effect with
  | .section id (.grace nowMs) => id = R && (d.before.heap.get R).any fun s =>
      s.state = .ended && s.hostDisconnectDeadlineMs.any (· ≤ nowMs)
  | _ => false

/-- Nothing of `R` is left in the registry. -/
structure ServerState.Forgotten (st : ServerState) (R : Uuid) : Prop where
  byId : R ∉ st.byId
  byCode : ∀ c, st.byCode.get c ≠ some R
  tx : st.tx.get R = none
  manifestCache : st.manifestCache.get R = none

/-- The entries of `R` are the same in both states. -/
structure SameEntries (R : Uuid) (st st' : ServerState) : Prop where
  byId : R ∈ st'.byId ↔ R ∈ st.byId
  byCode : ∀ c, st.byCode.get c = some R → st'.byCode.get c = some R
  tx : st'.tx.get R = st.tx.get R
  manifestCache : st'.manifestCache.get R = st.manifestCache.get R

/-- A join of `R` is refused. -/
def Step.Refuses (R : Uuid) (d : Step) : Prop :=
  match d with
  | ⟨_, .section id (.join ..), _, reply, _, _⟩ =>
    id = R → reply = (.error .roomClosed : Except RoomError (RoomJoinedPayload × RoomEvent))
  | _ => True

/-- What an ended room keeps: its end, its host and its playback, and nobody is new in it. -/
structure KeepsEnd (s s' : RoomState) : Prop where
  ended : s'.state = .ended
  host : s'.hostUserId = s.hostUserId
  playback : s'.playback = s.playback
  seats : ∀ u, (s'.record u).isSome → (s.record u).isSome

/-- What a step does to a room that has ended: it keeps its end, nobody joins, no playback command
and no manifest is published, and what is gone stays gone. -/
structure Step.LeavesEnded (R : Uuid) (d : Step) : Prop where
  refuses : d.Refuses R
  room : ∀ s, d.before.heap.get R = some s → ∃ s', d.after.heap.get R = some s' ∧ KeepsEnd s s'
  items : ∀ item ∈ d.sent R, item.payload.playback = none ∧ item.payload.isManifest = false
  byId : R ∉ d.before.byId → R ∉ d.after.byId
  tx : d.opens R = false → d.before.tx.get R = none → d.after.tx.get R = none
  manifestCache : d.before.manifestCache.get R = none → d.after.manifestCache.get R = none

/-- The end of a room that had its channel: everybody on it is told, and nothing is left. -/
structure HeardEnd (R : Uuid) (h : List Step) (p : Tasks) : Prop where
  told : ∀ s, p.state.heap.get R = some s → R ∉ p.state.byId → 1 ≤ closings R h
  cleared : ∀ s, p.state.heap.get R = some s → (∃ d ∈ h, d.opens R) → p.state.tx.get R = none →
    R ∉ p.state.byId ∧ ∀ c, p.state.byCode.get c ≠ some R
  finished : p.quiet → p.state.Ended R → 1 ≤ closings R h ∧ p.state.Forgotten R

/-- **The end of `R`** in a run: of what was sent to it, of its row, and of what became of it. -/
structure RoomEnd (cfg : RoomRegistryConfig) (R : Uuid) (h : List Step) (p : Tasks) : Prop where
  silent : ¬p.state.Ended R → closings R h = 0
  once : (∀ d ∈ h, d.runsOutAgain R = false) → closings R h ≤ 1
  final : ∀ d ∈ h, d.before.Ended R → d.LeavesEnded R
  removed : ∀ s, p.state.heap.get R = some s → R ∉ p.state.byId →
    s.state = .ended ∧ ∃ d ∈ h, d.CallsEndRoom cfg R
  mute : ∀ d ∈ h, d.before.tx.get R = none → d.sent R = []
  others : ∀ d ∈ h, ∀ map, d.effect = .remove map R → ∀ R', R' ≠ R → SameEntries R' d.before d.after
  finished : p.quiet → p.state.Ended R → (∃ d ∈ h, d.CallsEndRoom cfg R) ∧ R ∉ p.state.byId ∧
    p.state.manifestCache.get R = none
  heard : (∀ d ∈ h, d.endsUnheard R = false) → HeardEnd R h p

/-! ### Steps of a room that has ended -/

/-- A join of an ended room is refused. -/
lemma joinLocked_ended {cfg : RoomRegistryConfig} {s s' : RoomState}
    {store store' : Store} {u : Uuid} {pubkey : PubKey} {name : String} {nowMs : ℤ}
    {reply : Except RoomError (RoomJoinedPayload × RoomEvent)} (hended : s.state = .ended)
    (h : joinLocked cfg s store u pubkey name nowMs = some (reply, s', store')) :
    reply = .error .roomClosed := by
  have hrefused : joinRefusal cfg s u = some .roomClosed := by simp [joinRefusal, hended]
  rw [joinLocked, hrefused] at h
  cases h
  rfl

/-- A section publishes no playback command for a room that has ended. -/
lemma section_playback {sec : Section} {s : RoomState} {senv : SectionEnv} {store : Store}
    {out : SectionOutcome sec.Reply} (h : sec.run senv store s = some out)
    (hR : s.id = R → s.state = .ended) :
    ∀ item ∈ ServerState.itemsTo R out.sent, item.payload.playback = none := by
  have hf := Section.run_framed h
  intro item hitem
  obtain ⟨pair, hpair, rfl⟩ := List.mem_map.1 hitem
  obtain ⟨hmem, hto⟩ := List.mem_filter.1 hpair
  have htarget := (hf.sent pair hmem).1
  rw [of_decide_eq_true hto] at htarget
  cases hp : pair.2.payload.playback with
  | none => rfl
  | some e =>
    -- the section has accepted a command, so the room runs
    have he : e ∈ out.sent.filterMap (·.2.payload.playback) := List.mem_filterMap.2 ⟨pair, hmem, hp⟩
    rw [hf.playback, Option.mem_toList] at he
    cases sec with
    | playbackCmd u pubkey payload =>
      have hid : s.id = R := htarget.symm
      cases h
      rcases playbackLocked_spec s payload u pubkey senv.clockMs with ⟨e', hr⟩ | ⟨hn, -⟩
      · simp [hr, Section.accepted] at he
      · exact absurd (hR hid) (playbackRefusal_eq_none hn).1
    | _ => cases he

lemma KeepsEnd.refl {s : RoomState} (h : s.state = .ended) : KeepsEnd s s :=
  ⟨h, rfl, rfl, fun _ hu => hu⟩

lemma leavesEnded_section {op : Op} {inp : Input} {before : ServerState} {id : Uuid} {sec : Section}
    {s : RoomState} {out : SectionOutcome sec.Reply} (hg : GoodRoom s)
    (hs : before.heap.get id = some s)
    (hrun : sec.run ⟨env.cfg, env.crates, inp.clockMs⟩ ⟨before.db, inp.faults⟩ s = some out)
    (hended : before.Ended R) :
    Step.LeavesEnded R ⟨op, .section id sec, inp, out.reply, before, before.apply id out⟩ := by
  have hid : out.state.id = id := (Section.run_framed hrun).id.trans (Heap.get_id hs)
  have hR (h : id = R) : s.state = .ended := by
    obtain ⟨t, ht, hstate⟩ := hended
    rw [← h, hs] at ht
    cases ht
    exact hstate
  constructor
  case refuses =>
    cases sec with
    | join u pubkey name nowMs =>
      intro h
      obtain ⟨⟨reply, s', store'⟩, hj, rfl⟩ := Option.map_eq_some_iff.1 hrun
      exact joinLocked_ended (hR h) hj
    | _ => exact trivial
  case room =>
    intro t ht
    rw [ServerState.apply_heap, Heap.get_put, hid]
    split
    · rename_i h
      rw [h, hs] at ht
      cases ht
      have hstate := hR h.symm
      have hstep := (Section.run_refines hg.keyed hg.host hrun).step
      have hroster : s.roster.ended = true := by simp [RoomState.roster, hstate]
      refine ⟨out.state, rfl, (Section.ended_iff hrun).2 (.inl hstate), hstep.host_of_ended hroster,
        (Section.run_playback hrun).of_ended hstate, fun u hu => ?_⟩
      have hseat := hstep.seat_of_ended hroster (u := u) (by simpa [RoomState.roster] using hu)
      simpa [RoomState.roster] using hseat
    · obtain ⟨t', ht', hstate⟩ := hended
      cases ht.symm.trans ht'
      exact ⟨t, ht, .refl hstate⟩
  case items =>
    intro item hitem
    rw [sent_section] at hitem
    split at hitem
    · obtain ⟨pair, hpair, rfl⟩ := List.mem_map.1 hitem
      have hsends := Section.run_sends hrun pair (List.mem_filter.1 hpair).1
      exact ⟨section_playback hrun (fun h => hR ((Heap.get_id hs).symm.trans h)) _ hitem,
        Section.sends_isManifest hsends⟩
    · cases hitem
  case byId => simp
  case tx => simp [ServerState.apply_tx]
  case manifestCache => simp

/-- **What every step does to a room that has ended.** -/
lemma leavesEnded_step {d : Step} {g : Session} (hg : Good d.before)
    (ha : session.allows g d.effect) (hc : StepCase env d) (hl : d.Lawful env.crates R)
    (hended : d.before.Ended R) : d.LeavesEnded R := by
  obtain ⟨t, ht, hstate⟩ := hended
  have hroom {st st' : ServerState} (hst : st.heap.get R = some t)
      (hheap : st'.heap.get R = st.heap.get R) (s : RoomState) (hs : st.heap.get R = some s) :
      ∃ s', st'.heap.get R = some s' ∧ KeepsEnd s s' := by
    cases hst.symm.trans hs
    exact ⟨t, hheap.trans hst, .refl hstate⟩
  have hnone {d : Step} (h : d.sent R = []) : ∀ item ∈ d.sent R,
      item.payload.playback = none ∧ item.payload.isManifest = false := by simp [h]
  cases hc with
  | «section» op inp before id sec s out hs _ hrun =>
    exact leavesEnded_section (hg id s hs) hs hrun ⟨t, ht, hstate⟩
  | insertRoom op inp before s hfree =>
    have hne : ¬R = s.id := by
      rintro rfl
      rw [hfree] at ht
      cases ht
    exact ⟨trivial, hroom ht (by simp [hne]), hnone (Step.sent_of_eq rfl), by simp [hne],
      fun _ h => h, fun h => h⟩
  | insertCode op inp before code id =>
    exact ⟨trivial, hroom ht rfl, hnone (Step.sent_of_eq rfl), fun h => h, fun _ h => h, fun h => h⟩
  | insertChannel op inp before id =>
    refine ⟨trivial, hroom ht rfl, hnone (sent_insertChannel op inp before id), fun h => h,
      fun hopens h => ?_, fun h => h⟩
    have hid : ¬R = id := fun h => of_decide_eq_false hopens h.symm
    change (before.insertChannel id).tx.get R = none
    rw [ServerState.insertChannel_tx, if_neg hid]
    exact h
  | putManifest op inp before id c =>
    refine ⟨trivial, hroom ht rfl, hnone (Step.sent_of_eq rfl), fun h => h, fun _ h => h,
      fun h => ?_⟩
    change (before.putManifest id c).manifestCache.get R = none
    rw [ServerState.putManifest_manifestCache, if_neg]
    · exact h
    · -- a manifest is only cached for a room that runs
      rintro rfl
      obtain ⟨⟨⟨s, hs, hopen, -⟩, -⟩, -⟩ := hl.delivers c (if_pos rfl)
      cases ht.symm.trans hs
      exact hopen hstate
  | publishManifest op inp before id c =>
    refine ⟨trivial, hroom ht (by simp), ?_, by simp, by simp [ServerState.publishManifest_tx],
      by simp⟩
    rw [sent_publishManifest, if_neg]
    · exact fun _ hi => absurd hi List.not_mem_nil
    · rintro ⟨rfl, -⟩
      obtain ⟨⟨⟨s, hs, hopen, -⟩, -⟩, -⟩ := hl.delivers c (if_pos rfl)
      cases ht.symm.trans hs
      exact hopen hstate
  | publish op inp before id item =>
    refine ⟨trivial, hroom ht (by simp), fun i hi => ?_, by simp, by simp [ServerState.publish_tx],
      by simp⟩
    rw [sent_publish] at hi
    split at hi
    · rw [List.mem_singleton.1 hi]
      exact ⟨ha.1, not_isManifest hl.outside⟩
    · cases hi
  | remove op inp before map id =>
    refine ⟨trivial, hroom ht (by simp), hnone (sent_remove op inp before map id), ?_, ?_, ?_⟩
    · intro hno hmem
      rw [ServerState.remove_byId] at hmem
      split at hmem
      · exact hno (List.mem_filter.1 hmem).1
      · exact hno hmem
    · intro _ hnone
      simp [ServerState.remove_tx, hnone]
    · intro hnone
      simp [ServerState.remove_manifestCache, hnone]
  | minor _ hminor hheap htx hbyId hcode hcache =>
    refine ⟨?_, hroom ht (by rw [hheap]), hnone (Step.sent_of_eq (by rw [htx])), by simp [hbyId],
      by simp [htx], by simp [hcache]⟩
    obtain ⟨op, e, inp, r, before, after⟩ := d
    cases e <;> first | exact trivial | cases hminor

/-- Nothing is sent to a room without a channel. -/
lemma sent_of_mute {d : Step} (hc : StepCase env d) (hR : d.before.tx.get R = none) :
    d.sent R = [] := by
  cases hc with
  | «section» op inp before id sec s out hs _ hrun =>
    rw [sent_section, if_neg]
    simpa using hR
  | insertChannel => rw [sent_insertChannel]
  | publish op inp before id item =>
    rw [sent_publish, if_neg]
    simp [hR]
  | publishManifest op inp before id c =>
    rw [sent_publishManifest, if_neg]
    simp [hR]
  | remove => rw [sent_remove]
  | insertRoom | insertCode | putManifest => exact Step.sent_of_eq rfl
  | minor _ _ _ htx => exact Step.sent_of_eq (by rw [htx])

/-! ### Runs -/

lemma exists_of_tally {test : Step → Bool} (ht : 0 < tally test h) : ∃ d ∈ h, test d = true := by
  simpa [tally, List.countP_pos_iff] using ht

/-- A row is closed by a call of `end_room`. -/
lemma callsEndRoom {d : Step} (hd : (system env).Handled d) (hp : d.persistsEnd R = true) :
    d.CallsEndRoom env.cfg R := by
  obtain ⟨op, e, inp, r, before, after⟩ := d
  cases e with
  | store request =>
    cases request with
    | endRoom id nowMs =>
      have hid : decide (id = R) = true := hp
      exact (of_decide_eq_true hid : id = R)
    | _ => cases hp
  | «section» id sec =>
    obtain ⟨s, out, hs, hrun, rfl, -⟩ := handle_section (r := r) hd
    have hp : (decide (id = R) && sec.ends out.reply && closesRow sec) = true := hp
    simp only [Bool.and_eq_true, decide_eq_true_eq] at hp
    obtain ⟨⟨rfl, hends⟩, hrow⟩ := hp
    cases sec with
    | leave u intentional nowMs =>
      simp only [Section.run] at hrun
      split at hrun
      · cases hrun
        cases hends
      · rename_i out' hl
        cases hrun
        refine ⟨rfl, s, out', hs, hl, ?_⟩
        rw [← Heap.get_id hs]
        exact leave_endRoom hl (of_decide_eq_true hends)
    | _ => cases hrow
  | _ => cases hp

/-- A room ends a second time only by its grace running out. -/
lemma runsOutAgain {d : Step} (hd : (system env).Handled d) (he : d.endsAgain R = true) :
    d.runsOutAgain R = true := by
  obtain ⟨op, e, inp, r, before, after⟩ := d
  cases e with
  | «section» id sec =>
    obtain ⟨s, out, hs, hrun, rfl, -⟩ := handle_section (r := r) hd
    have he : ((decide (id = R) && sec.ends out.reply) && decide (before.Ended R)) = true := he
    simp only [Bool.and_eq_true, decide_eq_true_eq] at he
    obtain ⟨⟨rfl, hends⟩, t, ht, hstate⟩ := he
    cases hs.symm.trans ht
    cases sec with
    | leave u intentional nowMs =>
      simp only [Section.run] at hrun
      split at hrun
      · cases hrun
        cases hends
      · rename_i out' hl
        exact absurd hstate (leaveLocked_spec hl).1
    | grace nowMs =>
      have hrun : Section.run ⟨env.cfg, env.crates, inp.clockMs⟩ ⟨before.db, inp.faults⟩ s
        (.grace nowMs) = some out := hrun
      cases hrun
      rcases processRoomGrace_spec s nowMs with hg | ⟨deadline, hd, hle, -⟩
      · simp [hg, SectionOutcome.quiet, Section.ends] at hends
      · simp [Step.runsOutAgain, hs, hstate, hd, hle]
    | _ => cases hends
  | _ => cases he

/-- A task that is done has nothing left to do. -/
lemma dues_of_quiet (r : Run env guard h p) (hq : p.quiet) : ∀ g ∈ duesIn R p, g = .none := by
  intro g hg
  obtain ⟨t, ht, rfl⟩ := List.mem_map.1 hg
  obtain ⟨a, ha⟩ := Option.isSome_iff_exists.1 (hq t ht)
  exact System.sat_of_result (A := closing R) (Q := fun _ (g : Dues) => g = .none)
    ((closingInv_of_run R r).2 t ht) ha

/-- Every step of a run leaves an ended room as it should. -/
lemma leavesEnded_of_run (r : Run env guard h p) : ∀ d ∈ h, d.before.Ended R → d.LeavesEnded R := by
  have hlawful := (pendingInv_of_runFrom R r (ServerState.unended_empty R).held).2
  refine (Run.invariant (I := fun h _ _ => ∀ d ∈ h, d.before.Ended R → d.LeavesEnded R)
    (fun d hd => absurd hd List.not_mem_nil) (fun _ _ _ hI => hI)
    (fun h gs i g d hg hI _ ha hc hl d' hd' => ?_) (r.guarded hlawful)).2.1
  rcases List.mem_append.1 hd' with hd' | hd'
  · exact hI d' hd'
  · rw [List.mem_singleton.1 hd']
    exact leavesEnded_step hg ha hc hl

/-- Removing a room leaves the entries of the others alone. -/
lemma others_of_run (r : Run env guard h p) : ∀ d ∈ h, ∀ map, d.effect = .remove map R →
    ∀ R', R' ≠ R → SameEntries R' d.before d.after := by
  intro d hd map he R' hne
  obtain ⟨hhandled, h', p', r', hbefore, -⟩ := System.Run.before r d hd
  have hcodes := codes_of_run r'
  rw [hbefore] at hcodes
  obtain ⟨op, e, inp, resp, before, after⟩ := d
  cases he
  have hhandled : Effect.handle env (.remove map R) inp before = some (resp, after) := hhandled
  cases hhandled
  refine ⟨?_, fun c hc => ?_, ?_, ?_⟩
  · simp only [ServerState.remove_byId]
    split
    · simp [hne]
    · rfl
  · cases hs : before.heap.get R with
    | none =>
      have : (before.remove map R).byCode = before.byCode := by
        cases map <;> simp [ServerState.remove, hs]
      exact this ▸ hc
    | some s => exact hcodes.remove_byCode (by rw [hs]; rfl) map hne hc
  · simp [ServerState.remove_tx, hne]
  · simp [ServerState.remove_manifestCache, hne]

/-- A code is only inserted for a room whose code is due. -/
lemma byCode_of_step {d : Step} (hc : StepCase env d) (hcodes : d.codes R = false) {c : String}
    (hR : d.after.byCode.get c = some R) : d.before.byCode.get c = some R := by
  cases hc with
  | «section» => simpa using hR
  | insertCode op inp before code id =>
    replace hR : (before.insertCode code id).byCode.get c = some R := hR
    rw [ServerState.insertCode_byCode] at hR
    split at hR
    · exact absurd (Option.some.inj hR) (of_decide_eq_false hcodes)
    · exact hR
  | publish | publishManifest => simpa using hR
  | remove op inp before map id =>
    replace hR : (before.remove map id).byCode.get c = some R := hR
    cases hs : before.heap.get id with
    | none =>
      rwa [show (before.remove map id).byCode = before.byCode by
        cases map <;> simp [ServerState.remove, hs]] at hR
    | some s =>
      rw [ServerState.remove_byCode _ _ _ hs] at hR
      split at hR
      · cases hR
      · exact hR
  | insertRoom | insertChannel | putManifest => exact hR
  | minor _ _ _ _ _ hcode => rwa [hcode] at hR

/-- **The code of a room goes with its channel**, and does not come back, if the room had its
channel when it ended. -/
lemma uncoded_of_run (r : Run env guard h p) (hheard : tally (Step.endsUnheard R) h = 0)
    (hgone : 0 < tally (Step.removes .channel R) h) (c : String) :
    p.state.byCode.get c ≠ some R := by
  refine System.Run.history_invariant (fun h st => tally (Step.endsUnheard R) h = 0 →
    0 < tally (Step.removes .channel R) h → ∀ c, st.byCode.get c ≠ some R)
    (fun _ hpos => absurd hpos (by simp)) (fun h p d p' r r' hbefore hafter hd hI => ?_) r hheard
    hgone c
  intro hheard hgone c hcode
  rw [tally_append] at hheard hgone
  have hc := step_cases hd
  have hclosing := (closingInv_of_run R r).1
  by_cases hgone' : 0 < tally (Step.removes .channel R) h
  · -- the room has ended with its channel, so its code has been inserted before
    refine hI (by omega) hgone' c (byCode_of_step hc ?_ hcode)
    have hcleared := hclosing.cleared
    have hremoved := hclosing.removed
    have hsettled := hclosing.settled (by omega) (by omega)
    have hordered : due Dues.coding (duesIn R p) ≤ due Dues.opening (duesIn R p) :=
      due_le fun g hg => (hclosing.ordered g hg).coding
    have h₁ := hclosing.coded
    have h₂ := hclosing.opened
    have h₃ := (closingInv_of_run R r').1.coded
    have h₄ := (closingInv_of_run R r').1.created
    rw [tally_append, tally_append] at h₃
    by_contra hcodes
    rw [if_pos (by simpa using hcodes)] at h₃
    have hcreates : Step.creates R d = false := by
      obtain ⟨op, e, inp, resp, before, after⟩ := d
      cases e <;> first | rfl | exact absurd rfl hcodes
    rw [hcreates] at h₃
    simp only [Bool.false_eq_true, if_false] at h₃
    omega
  · -- the channel is removed now
    have hrem : Step.removes .channel R d = true := by
      by_contra hno
      rw [if_neg (by simpa using hno)] at hgone
      omega
    have hcodes := codes_of_run r
    rw [← hbefore] at hcodes
    obtain ⟨op, e, inp, resp, before, after⟩ := d
    cases e with
    | remove map id =>
      obtain ⟨rfl, rfl⟩ : map = .channel ∧ id = R := by simpa [Step.removes] using hrem
      have hbefore : before.byCode.get c = some id := byCode_of_step hc rfl hcode
      obtain ⟨s, hs, rfl⟩ := hcodes.code c id hbefore
      have hd : Effect.handle env (.remove .channel id) inp before = some (resp, after) := hd
      cases hd
      replace hcode : (before.remove .channel id).byCode.get s.code = some id := hcode
      rw [ServerState.remove_byCode _ _ _ hs, if_pos ⟨rfl, rfl⟩] at hcode
      cases hcode
    | _ => cases hrem

/-- The end of a room that had its channel. -/
lemma heardEnd_of_run (r : Run env guard h p) (hheard : ∀ d ∈ h, d.endsUnheard R = false) :
    HeardEnd R h p := by
  have hzero : tally (Step.endsUnheard R) h = 0 :=
    List.countP_eq_zero.2 fun d hd => by simp [hheard d hd]
  have hI := (closingInv_of_run R r).1
  have hannounced := hI.announced
  have hremoved := hI.removed
  have huncached := hI.uncached
  have hcleared := hI.cleared
  have hopened := hI.opened
  have hcreated := hI.created
  have hordered : due Dues.announce (duesIn R p) ≤ due Dues.remove (duesIn R p) :=
    due_le fun g hg => (hI.ordered g hg).announce
  have htold (hpos : 0 < tally (Step.removes .byId R) h) : 1 ≤ closings R h := by
    by_cases hnone : tally (Step.removes .channel R) h = 0
    · rw [hI.sent hnone hzero]
      omega
    · exact hI.heard (Nat.pos_of_ne_zero hnone) hzero
  constructor
  case told =>
    intro s hs hno
    refine htold ?_
    rw [hI.byId, hs] at hno
    simpa [Nat.pos_iff_ne_zero] using hno
  case cleared =>
    intro s hs hopens hnone
    have hopens : 0 < tally (Step.opens R) h := List.countP_pos_iff.2 hopens
    have hpos : 0 < tally (Step.removes .channel R) h := by
      by_contra hno
      have : (p.state.tx.get R).isSome :=
        (hI.channel (by omega)).2 ⟨by rw [hs]; rfl, by omega⟩
      simp [hnone] at this
    refine ⟨?_, uncoded_of_run r hzero hpos⟩
    rw [hI.byId]
    omega
  case finished =>
    intro hq hended
    have hnone := dues_of_quiet (R := R) r hq
    have hdue (kind : Dues → ℕ) (hk : kind .none = 0) : due kind (duesIn R p) = 0 :=
      due_eq_zero fun g hg => by rw [hnone g hg, hk]
    have hpos := hI.ended.1 hended
    have h₁ := hdue Dues.remove rfl
    have h₂ := hdue Dues.channel rfl
    have h₃ := hdue Dues.uncache rfl
    have hchannel : 0 < tally (Step.removes .channel R) h := by omega
    refine ⟨htold (by omega), ⟨?_, uncoded_of_run r hzero hchannel, hI.closed hchannel hzero, ?_⟩⟩
    · rw [hI.byId]
      omega
    · rw [← Option.not_isSome_iff_eq_none]
      intro hsome
      have := (hI.cache hsome).2
      omega

/-- **The end of a room**, in every run. -/
theorem room_ends (env : Env) {h : List Step} {p : Tasks} (r : Run env anyStep h p) (R : Uuid) :
    RoomEnd env.cfg R h p := by
  have hI := (closingInv_of_run R r).1
  have hannounced := hI.announced
  have hpersisted := hI.persisted
  have hremoved := hI.removed
  have huncached := hI.uncached
  have hbounded := hI.bounded
  have hhandled (d : Step) (hd : d ∈ h) : (system env).Handled d := (System.Run.before r d hd).1
  -- the row is closed before the handle is removed
  have hper : due Dues.persist (duesIn R p) ≤ due Dues.remove (duesIn R p) :=
    due_le fun g hg => (hI.ordered g hg).persist
  have hpersists (hpos : 0 < tally (Step.persistsEnd R) h) : ∃ d ∈ h, d.CallsEndRoom env.cfg R := by
    obtain ⟨d, hd, hp⟩ := exists_of_tally hpos
    exact ⟨d, hd, callsEndRoom (hhandled d hd) hp⟩
  constructor
  case silent =>
    intro hopen
    have : ¬0 < tally (Step.ends R) h := fun hpos => hopen (hI.ended.2 hpos)
    omega
  case once =>
    intro hcalm
    have hnone : tally (Step.endsAgain R) h = 0 := by
      by_contra hne
      obtain ⟨d, hd, he⟩ := exists_of_tally (Nat.pos_of_ne_zero hne)
      have := runsOutAgain (hhandled d hd) he
      simp [hcalm d hd] at this
    have := hI.once
    omega
  case final => exact leavesEnded_of_run r
  case removed =>
    intro s hs hno
    have hpos : 0 < tally (Step.removes .byId R) h := by
      rw [hI.byId, hs] at hno
      simpa [Nat.pos_iff_ne_zero] using hno
    have hended : p.state.Ended R := hI.ended.2 (by omega)
    obtain ⟨t, ht, hstate⟩ := hended
    cases hs.symm.trans ht
    exact ⟨hstate, hpersists (by omega)⟩
  case mute => exact fun d hd => sent_of_mute (step_cases (hhandled d hd))
  case others => exact others_of_run r
  case finished =>
    intro hq hended
    have hnone := dues_of_quiet (R := R) r hq
    have hdue (kind : Dues → ℕ) (hk : kind .none = 0) : due kind (duesIn R p) = 0 :=
      due_eq_zero fun g hg => by rw [hnone g hg, hk]
    have hpos := hI.ended.1 hended
    have h₁ := hdue Dues.remove rfl
    have h₂ := hdue Dues.uncache rfl
    refine ⟨hpersists (by omega), ?_, ?_⟩
    · rw [hI.byId]
      omega
    · rw [← Option.not_isSome_iff_eq_none]
      intro hsome
      have := (hI.cache hsome).2
      omega
  case heard => exact heardEnd_of_run r

/-! ### A host who leaves -/

/-- Nothing follows a `ROOM_CLOSED` on the channel. -/
def ClosedLast (R : Uuid) (h : List Step) : Prop :=
  ∀ earlier item later, sentTo R h = earlier ++ item :: later → item.payload.isClosed = true →
    later = []

/-- No step changes a room that has ended. -/
def FixedOnceEnded (R : Uuid) (h : List Step) : Prop :=
  ∀ d ∈ h, d.before.Ended R → d.after.heap.get R = d.before.heap.get R

namespace Left

/-- A host creates a room and leaves it; the viewer's client is heard of before the room goes. -/
def moves : List (Move Op Input) :=
  .spawn (.create "room" 1 (PubKey.filled 1) false 0) :: steps 0 10 (.plain [] 10 "ABCDEF") ++
  .spawn (.join "ABCDEF" 2 (PubKey.filled 2) "" 0) :: steps 1 4 (.plain [10] 0 "") ++
  .spawn (.leaveRoom 1 none true 10) :: steps 2 3 (.plain [10] 0 "") ++
  .spawn (.touch 2 99) :: steps 3 3 (.plain [10] 0 "") ++ steps 2 6 (.plain [10] 0 "")

lemma played_moves : (played .plain moves).isSome = true := by decide

/-- A host leaves while the room's code and channel are still to be inserted. -/
def early : List (Move Op Input) :=
  .spawn (.create "room" 1 (PubKey.filled 1) true 0) :: steps 0 8 (.plain [] 10 "ABCDEF") ++
  .spawn (.leaveRoom 1 none true 10) :: steps 1 9 (.plain [10] 0 "") ++
  steps 0 2 (.plain [10] 0 "")

lemma played_early : (played .plain early).isSome = true := by decide

/-- When the participants of a room were last heard of. -/
def lastSeen (st : ServerState) (R : Uuid) : Option (List ℤ) :=
  (st.heap.get R).map fun s => s.participants.map (·.lastSeenMs)

end Left

/-- The leaver's `PARTICIPANT_LEFT` follows the `ROOM_CLOSED`, and a viewer's client is heard of in
the ended room.  A room that ends before it has its channel closes for nobody, and its code and
channel stay. -/
theorem room_end_fails :
    (∃ h p, Run .plain anyStep h p ∧ p.quiet ∧ p.state.Ended 10 ∧ ¬ClosedLast 10 h ∧
      ¬FixedOnceEnded 10 h) ∧
    ∃ h p, Run .plain anyStep h p ∧ p.quiet ∧ p.state.Ended 10 ∧ closings 10 h = 0 ∧
      ¬p.state.Forgotten 10 := by
  constructor
  · have r : Run .plain anyStep _ _ := run_of_played Left.played_moves fun _ _ => trivial
    refine ⟨_, _, r, by decide, by decide, fun hlast => ?_, fun hfixed => ?_⟩
    · have hlog : (sentTo 10 ((played .plain Left.moves).get Left.played_moves).1).map
          (fun item => item.payload.isClosed) = [false, true, false] := by decide
      obtain ⟨joined, closed, left, hsent⟩ : ∃ a b c,
          sentTo 10 ((played .plain Left.moves).get Left.played_moves).1 = [a, b, c] :=
        List.length_eq_three.1 (by simpa using congrArg List.length hlog)
      simp only [hsent, List.map_cons, List.map_nil, List.cons.injEq] at hlog
      have := hlast [joined] closed [left] hsent hlog.2.1
      cases this
    · have hseen : ∃ d ∈ ((played .plain Left.moves).get Left.played_moves).1,
          d.before.Ended 10 ∧ Left.lastSeen d.after 10 ≠ Left.lastSeen d.before 10 := by decide
      obtain ⟨d, hd, hended, hne⟩ := hseen
      exact hne (by rw [Left.lastSeen, Left.lastSeen, hfixed d hd hended])
  · have r : Run .plain anyStep _ _ := run_of_played Left.played_early fun _ _ => trivial
    refine ⟨_, _, r, by decide, by decide, by decide, fun hforgotten => ?_⟩
    have htx : (((played .plain Left.early).get Left.played_early).2.state.tx.get 10).isSome := by
      decide
    rw [hforgotten.tx] at htx
    cases htx

/-- The room of a host who leaves ends as it should. -/
theorem room_ends_left : ∃ h p, Run .plain anyStep h p ∧ RoomEnd Env.plain.cfg 10 h p ∧
    p.quiet ∧ p.state.Ended 10 ∧ closings 10 h = 1 ∧ p.state.Forgotten 10 := by
  have r : Run .plain anyStep _ _ := run_of_played Left.played_moves fun _ _ => trivial
  have hends := room_ends .plain r 10
  have hquiet : ((played .plain Left.moves).get Left.played_moves).2.quiet := by decide
  have hended : ((played .plain Left.moves).get Left.played_moves).2.state.Ended 10 := by decide
  exact ⟨_, _, r, hends, hquiet, hended, by decide,
    ((hends.heard (by decide)).finished hquiet hended).2⟩

end Locast.Server
