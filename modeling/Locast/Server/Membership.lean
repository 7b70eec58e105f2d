import Locast.Rooms.Occupancy
import Locast.Server.Reachable

/-!
# Membership

The membership invariant of a running room, in every interleaving of the server's tasks: one record
a user, one host, no more live records than the room holds, and nobody who left comes back but by
joining.

The last two need a condition.  `connection_lost_in_room` and `rejoin_in_room` look for the user
under a read lock, call the store, and then write the user's status without looking again; a user
who left in between is in the room again, without having joined and without having been counted.
-/

namespace Locast.Server

open Locast.Lib Locast.Protocol Locast.Rooms

/-! ### The invariant -/

/-- The membership invariant of a room that is not `ended`. -/
structure MembershipOk (cfg : RoomRegistryConfig) (s : RoomState) : Prop where
  /-- No two records have the same user. -/
  nodup : (s.participants.map (·.userId)).Nodup
  /-- Exactly one record is the host's; it is not `left` and it is the one the room names. -/
  host : ∃ p, s.participants.filter (·.isHost) = [p] ∧ p.status ≠ .left ∧ p.userId = s.hostUserId
  /-- The room is not overfull. -/
  room : s.liveCount ≤ cfg.maxParticipants

/-- In this step nobody who has left comes back but by joining. -/
def LeftIsFinal (d : Step) : Prop :=
  ∀ id s s', d.before.heap.get id = some s → d.after.heap.get id = some s' → s'.state ≠ .ended →
    ∀ u p p', s.record u = some p → p.status = .left → s'.record u = some p' → p'.status ≠ .left →
      ∃ pubkey name nowMs, d.effect = .section id (.join u pubkey name nowMs)

/-- The invariant of a run: of the rooms it has reached and the steps it has taken. -/
def Membership (cfg : RoomRegistryConfig) (h : List Step) (p : Tasks) : Prop :=
  (∀ id s, p.state.heap.get id = some s → s.state ≠ .ended → MembershipOk cfg s) ∧
    ∀ d ∈ h, LeftIsFinal d

/-- The step is no section that writes over the record of a user who has left. -/
def noRevival (_ : List Step) (d : Step) : Prop :=
  d.sectionOk (fun s sec => !sec.revives s) = true

instance (h : List Step) (d : Step) : Decidable (noRevival h d) :=
  inferInstanceAs (Decidable (_ = true))

/-- A room in good order has one host. -/
lemma GoodRoom.host_unique {s : RoomState} (hg : GoodRoom s) (hopen : s.state ≠ .ended) :
    ∃ p, s.participants.filter (·.isHost) = [p] ∧ p.status ≠ .left ∧ p.userId = s.hostUserId := by
  obtain ⟨st, hst, hl⟩ := hg.host.seated
  obtain ⟨p, hp, hseat⟩ := RoomState.roster_seat_eq_some.1 hst
  obtain ⟨hmem, hu⟩ := mem_of_recordIn hp
  have hstatus : p.status = st := congrArg Seat.status hseat
  refine ⟨p, ?_, hstatus ▸ hl (roster_ended_eq_false.2 hopen), hu⟩
  rw [List.filter_congr fun q hq => RoomState.isHost_iff hg.keyed hg.host hq]
  exact filter_userId hg.keyed hp

/-- A section that revives nobody keeps the room within its size. -/
lemma section_room {env : SectionEnv} {store : Store} {s : RoomState} {sec : Section}
    {out : SectionOutcome sec.Reply} (h : sec.run env store s = some out) (hg : GoodRoom s)
    (hcalm : sec.revives s = false)
    (hroom : s.state ≠ .ended → s.liveCount ≤ env.cfg.maxParticipants) :
    out.state.state ≠ .ended → out.state.liveCount ≤ env.cfg.maxParticipants := by
  intro hopen
  have href := Section.run_refines hg.keyed hg.host h
  have hro : out.state.roster.ended = false := roster_ended_eq_false.2 hopen
  have hopen' : s.state ≠ .ended := roster_ended_eq_false.1 (href.step.open hro)
  have hlive {v : Uuid} := href.step.live_of hg.host hro hcalm (v := v)
  by_cases hjoin : ∃ u pubkey name nowMs, sec = .join u pubkey name nowMs
  · obtain ⟨u, pubkey, name, nowMs, rfl⟩ := hjoin
    obtain ⟨⟨reply, s', store'⟩, hj, rfl⟩ := Option.map_eq_some_iff.1 h
    rcases joinLocked_spec hj with ⟨e, rfl, rfl⟩ | ⟨joined, rfl, -, -, hfull, rfl, -⟩
    · exact hroom hopen'
    · refine le_trans (RoomState.liveCount_le_succ hg.keyed href.keyed (v := u) fun w hw => ?_)
        hfull
      rcases hlive hw with hw | ⟨_, _, _, hw⟩
      · exact .inr hw
      · cases hw
        exact .inl rfl
  · refine le_trans (RoomState.liveCount_mono hg.keyed href.keyed fun w hw => ?_) (hroom hopen')
    rcases hlive hw with hw | hw
    · exact hw
    · exact absurd ⟨w, hw⟩ hjoin

/-- Nobody who has left comes back in a step that revives nobody, unless by joining. -/
lemma step_leftIsFinal {env : Env} {d : Step} (hc : StepCase env d) (hg : Good d.before)
    (hcalm : d.sectionOk (fun s sec => !sec.revives s) = true) : LeftIsFinal d := by
  intro id s s' hs hs' hopen u p p' hp hleft hp' hlive
  have hsame (h : d.after.heap.get id = d.before.heap.get id) : False := by
    rw [hs', hs] at h
    cases Option.some.inj h
    cases hp.symm.trans hp'
    exact hlive hleft
  cases hc with
  | «section» op inp before id' sec t out ht _ hrun =>
    rw [ServerState.apply_heap, Heap.get_put] at hs'
    split at hs'
    · rename_i hid
      have hid' : id = id' := by
        rw [hid, (Section.run_framed hrun).id]
        exact Heap.get_id ht
      subst hid'
      cases Option.some.inj hs'
      cases ht.symm.trans hs
      have href := Section.run_refines (hg id s hs).keyed (hg id s hs).host hrun
      have hcalm' : sec.revives s = false := by
        simpa using Step.sectionOk_section hcalm rfl hs
      have hnot : ¬s.roster.Live u := by
        rintro ⟨x, hx, hl⟩
        obtain ⟨q, hq, rfl⟩ := RoomState.roster_seat_eq_some.1 hx
        cases hp.symm.trans hq
        exact hl hleft
      have hlive' : out.state.roster.Live u :=
        ⟨p'.seat, RoomState.roster_seat_eq_some.2 ⟨p', hp', rfl⟩, hlive⟩
      rcases href.step.live_of (hg id s hs).host (roster_ended_eq_false.2 hopen) hcalm' hlive' with
        h | ⟨pubkey, name, nowMs, rfl⟩
      · exact absurd h hnot
      · exact ⟨pubkey, name, nowMs, rfl⟩
    · exact (hsame (by rw [ServerState.apply_heap, Heap.get_put, if_neg ‹_›])).elim
  | insertRoom op inp before t hfree =>
    rw [ServerState.insertRoom_heap, Heap.get_put] at hs'
    split at hs'
    · rename_i hid
      rw [hid, hfree] at hs
      cases hs
    · exact (hsame (by rw [ServerState.insertRoom_heap, Heap.get_put, if_neg ‹_›])).elim
  | insertCode | insertChannel | putManifest => exact (hsame rfl).elim
  | publishManifest op inp before id' c => exact (hsame (by simp)).elim
  | publish op inp before id' item => exact (hsame (by simp)).elim
  | remove op inp before map id' => exact (hsame (by simp)).elim
  | minor _ hminor hheap => exact (hsame (by rw [hheap])).elim

/-- **Membership of running rooms.**  In every run in which no lost or renewed connection writes
over the record of a user who has left, and rooms have room for their host. -/
theorem membership_of_run (env : Env) (hmax : 1 ≤ env.cfg.maxParticipants)
    {h : List Step} {p : Tasks} (r : Run env noRevival h p) : Membership env.cfg h p := by
  refine ⟨fun id s hs hopen => ?_, fun d hd => ?_⟩
  · have hg := Run.good r id s hs
    refine ⟨hg.keyed, hg.host_unique hopen, ?_⟩
    refine Run.room (P := fun s => s.state ≠ .ended → s.liveCount ≤ env.cfg.maxParticipants)
      ?_ ?_ r id s hs hopen
    · rintro s ⟨id, code, title, u, pubkey, migration, nowMs, wallMs, rfl⟩ -
      simpa [RoomState.liveCount, RoomState.new] using hmax
    · intro h d id sec s out env' store hguard he hs hcfg hrun hg hroom
      rw [← hcfg] at hroom ⊢
      refine section_room hrun hg ?_ hroom
      simpa using Step.sectionOk_section hguard he hs
  · obtain ⟨hc, _, _, r', hb, hguard⟩ := Run.steps r d hd
    exact step_leftIsFinal hc (hb ▸ Run.good r') hguard

/-! ### A user who leaves while its connection is lost -/

namespace Revival

/-- A room for two. -/
def env : Env where
  cfg := { defaultConfig with maxParticipants := 2 }
  crates := plainCrates

/-- The host `1` and the viewer `2` are in room `10`. -/
def seated : List (Move Op Input) :=
  .spawn (.create "room" 1 (PubKey.filled 1) true 0) :: steps 0 10 (.plain [] 10 "ABCDEF") ++
  .spawn (.join "ABCDEF" 2 (PubKey.filled 2) "viewer" 0) :: steps 1 4 (.plain [10] 0 "")

/-- The server notices the viewer's lost connection and gets as far as the store call; the viewer
leaves and `3` takes the free seat; then the lost connection is written down. -/
def moves : List (Move Op Input) :=
  seated ++
  .spawn (.onConnectionLost 2 10) :: steps 2 4 (.plain [10] 0 "") ++
  .spawn (.leaveRoom 2 none true 10) :: steps 3 5 (.plain [10] 0 "") ++
  .spawn (.join "ABCDEF" 3 (PubKey.filled 3) "late" 10) :: steps 4 4 (.plain [10] 0 "") ++
  steps 2 1 (.plain [10] 0 "")

lemma played_moves : (played env moves).isSome = true := by decide

/-- The viewer's connection is lost and nothing else happens. -/
def calm : List (Move Op Input) :=
  seated ++ .spawn (.onConnectionLost 2 10) :: steps 2 5 (.plain [10] 0 "")

lemma played_calm : (played env calm).isSome = true := by decide

end Revival

/-- **Membership fails**: three live records in a room for two. -/
theorem membership_fails : ∃ h p, Run Revival.env anyStep h p ∧
    ¬Membership Revival.env.cfg h p := by
  have r : Run Revival.env anyStep _ _ := run_of_played Revival.played_moves fun _ _ => trivial
  refine ⟨_, _, r, fun hm => ?_⟩
  have hroom (s : RoomState)
      (hs : ((played Revival.env Revival.moves).get Revival.played_moves).2.state.heap.get 10 =
        some s) (hopen : s.state ≠ .ended) : s.liveCount ≤ 2 := (hm.1 10 s hs hopen).room
  have hover : (((played Revival.env Revival.moves).get
      Revival.played_moves).2.state.heap.get 10).any fun s =>
        s.state ≠ .ended && s.liveCount == 3 := by decide
  obtain ⟨hsome, hb⟩ := (Option.any_eq_true_iff_get _ _).1 hover
  simp only [ne_eq, decide_not, Bool.and_eq_true, Bool.not_eq_eq_eq_not, Bool.not_true,
    decide_eq_false_iff_not, beq_iff_eq] at hb
  have := hroom _ (Option.some_get hsome).symm hb.1
  omega

/-- A run that loses a connection and stays within the condition. -/
theorem membership_of_lost : ∃ h p, Run Revival.env noRevival h p ∧
    (p.state.heap.get 10).map (·.liveCount) = some 2 ∧ Membership Revival.env.cfg h p := by
  have r : Run Revival.env noRevival _ _ := run_of_played Revival.played_calm (by decide)
  exact ⟨_, _, r, by decide, membership_of_run Revival.env (by decide) r⟩

end Locast.Server
