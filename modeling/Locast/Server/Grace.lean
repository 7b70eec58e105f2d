import Locast.Rooms.Grace
import Locast.Server.Reachable

/-!
# The host's grace

While a room runs the grace timer and the host's status agree, in every interleaving of the server's
tasks; so only a room whose host is away ends by its timer.

This needs a condition.  An election leaves the timer running, both the one of a host who leaves for
good during its own grace period and the one of a server without a grace period; and the sections of
a lost or renewed connection write the status of a user who may have become the host since they
looked.
-/

namespace Locast.Server

open Locast.Lib Locast.Protocol Locast.Rooms

/-- The host's status and the timer agree. -/
structure GraceOk (s : RoomState) : Prop where
  /-- The timer runs exactly while the host is reconnecting; the host is never disconnected. -/
  host : ∃ p, s.host = some p ∧
    (s.hostDisconnectDeadlineMs.isSome ↔ p.status = .reconnecting) ∧ p.status ≠ .disconnected
  /-- A host who is not connected has a running timer. -/
  away : ∀ p, s.host = some p → p.status ≠ .connected → s.hostDisconnectDeadlineMs.isSome

/-- In this step the timer ends no running room but one whose host is reconnecting. -/
def EndsOnlyAbandoned (d : Step) : Prop :=
  ∀ id nowMs s s', d.effect = .section id (.grace nowMs) → d.before.heap.get id = some s →
    d.after.heap.get id = some s' → s.state ≠ .ended → s'.state = .ended →
      ∃ p, s.host = some p ∧ p.status = .reconnecting

/-- The invariant of a run: of the rooms it has reached and the steps it has taken. -/
def GraceCoherent (h : List Step) (p : Tasks) : Prop :=
  (∀ id s, p.state.heap.get id = some s → s.state ≠ .ended → GraceOk s) ∧
    ∀ d ∈ h, EndsOnlyAbandoned d

/-- The step is no section that leaves timer and host at odds. -/
def settled (cfg : RoomRegistryConfig) (_ : List Step) (d : Step) : Prop :=
  d.sectionOk (fun s sec => !sec.unsettles cfg s) = true

instance (cfg : RoomRegistryConfig) (h : List Step) (d : Step) : Decidable (settled cfg h d) :=
  inferInstanceAs (Decidable (_ = true))

lemma IsNew.coherent {s : RoomState} (h : IsNew s) : s.roster.Coherent := by
  obtain ⟨id, code, title, u, pubkey, migration, nowMs, wallMs, rfl⟩ := h
  refine ⟨?_, fun v => ?_⟩
  · simp [RoomState.roster, RoomState.record, RoomState.new, ParticipantRecord.seat]
  · by_cases hv : u = v <;>
      simp [RoomState.roster, RoomState.record, RoomState.new, ParticipantRecord.seat, hv]

/-- A coherent roster is a room whose host and timer agree. -/
lemma GoodRoom.graceOk {s : RoomState} (hg : GoodRoom s) (hc : s.roster.Coherent) :
    GraceOk s := by
  obtain ⟨p, hp, hseat⟩ := RoomState.roster_seat_eq_some.1 hc.host
  have hhost : s.host = some p := (RoomState.host_eq hg.keyed hg.host).trans hp
  have hstatus : p.status =
      if s.hostDisconnectDeadlineMs.isSome then .reconnecting else .connected :=
    congrArg Seat.status hseat
  refine ⟨⟨p, hhost, ?_⟩, fun q hq hst => ?_⟩
  · rw [hstatus]
    split <;> simp_all
  · cases hhost.symm.trans hq
    by_contra hd
    exact hst (by rw [hstatus, if_neg hd])

/-- In every state of a settled run the running rooms are coherent. -/
lemma coherent_of_run {env : Env} {h : List Step} {p : Tasks} (r : Run env (settled env.cfg) h p) :
    ∀ id s, p.state.heap.get id = some s → s.state ≠ .ended → s.roster.Coherent := by
  refine Run.room (P := fun s => s.state ≠ .ended → s.roster.Coherent)
    (fun s hs _ => hs.coherent) ?_ r
  intro h d id sec s out env' store hguard he hs hcfg hrun hg hP hopen
  have hcalm : sec.unsettles env.cfg s = false := by
    simpa using Step.sectionOk_section hguard he hs
  have hopen₀ : s.state ≠ .ended := fun hended =>
    hopen ((Section.run_framed hrun).ended hended)
  exact Section.run_coherent hrun hg.keyed hg.host (hcfg ▸ hcalm) hopen (hP hopen₀)

/-- **Host and grace agree.**  In every run in which no election leaves the timer running and no
section of a lost or renewed connection writes over a user who has become the host. -/
theorem grace_coherent (env : Env) {h : List Step} {p : Tasks} (r : Run env (settled env.cfg) h p) :
    GraceCoherent h p := by
  refine ⟨fun id s hs hopen => (Run.good r id s hs).graceOk (coherent_of_run r id s hs hopen), ?_⟩
  intro d hd id nowMs s s' he hs hs' hopen hended
  obtain ⟨hc, h', p', r', hb, -⟩ := Run.steps r d hd
  rw [← hb] at hs
  obtain ⟨⟨q, hq, hiff, -⟩, -⟩ :=
    (Run.good r' id s hs).graceOk (coherent_of_run r' id s hs hopen)
  refine ⟨q, hq, hiff.1 ?_⟩
  by_contra hnone
  -- without a timer the section does nothing
  have hquiet (n : ℤ) : processRoomGrace s n = (none, s) := by
    simp only [processRoomGrace]
    split
    · rfl
    · rename_i deadline hd'
      simp [hd'] at hnone
  rw [hb] at hs
  cases hc with
  | «section» op inp before id' sec t out ht _ hrun =>
    cases he
    cases ht.symm.trans hs
    simp only [Section.run, hquiet] at hrun
    cases hrun
    rw [ServerState.apply_heap, Heap.get_put] at hs'
    split at hs'
    · cases hs'
      exact hopen hended
    · cases hs.symm.trans hs'
      exact hopen hended
  | minor _ hminor => rw [he] at hminor; cases hminor
  | _ => cases he

/-! ### A host who leaves during its grace period -/

namespace Abandoned

/-- The host `1` and the viewer `2` are in room `10`, and the host's connection is lost. -/
def waiting : List (Move Op Input) :=
  .spawn (.create "room" 1 (PubKey.filled 1) true 0) :: steps 0 10 (.plain [] 10 "ABCDEF") ++
  .spawn (.join "ABCDEF" 2 (PubKey.filled 2) "viewer" 0) :: steps 1 4 (.plain [10] 0 "") ++
  .spawn (.onConnectionLost 1 10) :: steps 2 8 (.plain [10] 0 "")

/-- Then the host leaves for good and the viewer takes over. -/
def moves : List (Move Op Input) :=
  waiting ++ .spawn (.leaveRoom 1 none true 20) :: steps 3 6 (.plain [10] 0 "")

lemma played_waiting : (played .plain waiting).isSome = true := by decide

lemma played_moves : (played .plain moves).isSome = true := by decide

end Abandoned

/-- **The grace is incoherent**: a connected host with a running timer. -/
theorem grace_fails : ∃ h p, Run .plain anyStep h p ∧ ¬GraceCoherent h p := by
  have r : Run .plain anyStep _ _ := run_of_played Abandoned.played_moves fun _ _ => trivial
  refine ⟨_, _, r, fun hm => ?_⟩
  have hbad : (((played .plain Abandoned.moves).get
      Abandoned.played_moves).2.state.heap.get 10).any fun s =>
        s.state ≠ .ended && s.hostDisconnectDeadlineMs.isSome &&
          s.host.any fun p => p.status = .connected := by decide
  obtain ⟨hsome, hb⟩ := (Option.any_eq_true_iff_get _ _).1 hbad
  simp only [ne_eq, decide_not, Bool.and_eq_true, Bool.not_eq_eq_eq_not, Bool.not_true,
    decide_eq_false_iff_not] at hb
  obtain ⟨⟨hopen, hdeadline⟩, hhost⟩ := hb
  obtain ⟨⟨p, hp, hiff, -⟩, -⟩ := hm.1 10 _ (Option.some_get hsome).symm hopen
  rw [hp] at hhost
  have hc : p.status = .connected := by simpa using hhost
  rw [hiff, hc] at hdeadline
  cases hdeadline

/-- A settled run in which the host's connection is lost. -/
theorem grace_coherent_waiting : ∃ h p, Run .plain (settled Env.plain.cfg) h p ∧
    ((p.state.heap.get 10).bind (·.hostDisconnectDeadlineMs)) = some 30010 ∧
      GraceCoherent h p := by
  have r : Run .plain (settled Env.plain.cfg) _ _ :=
    run_of_played Abandoned.played_waiting (by decide)
  exact ⟨_, _, r, by decide, grace_coherent .plain r⟩

end Locast.Server
