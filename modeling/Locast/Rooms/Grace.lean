import Locast.Rooms.SectionRefine

/-!
# The host's grace

While a room runs, its host is connected and no grace timer runs, or it is reconnecting and one
does. The sections that break this are the two elections that leave the timer running, and the two
sections that write a viewer's status over the record of whoever is the host by now.
-/

namespace Locast.Rooms

open Locast.Lib Locast.Protocol

variable {cfg : RoomRegistryConfig} {s : RoomState}

/-! ### On rosters -/

/-- The timer runs exactly while the host is reconnecting, and no viewer is. -/
structure Roster.Coherent (R : Roster) : Prop where
  host : R.seat R.host = some ⟨if R.deadline.isSome then .reconnecting else .connected, true⟩
  viewers : ∀ u, R.seat u ≠ some ⟨.reconnecting, false⟩

/-- The section leaves the grace timer and the host's status at odds. -/
def Section.unsettles (cfg : RoomRegistryConfig) (s : RoomState) : Section → Bool
  | .leave u intentional _ =>
    s.state ≠ .ended && s.hostUserId == u && s.hostMigrationEnabled &&
      s.participants.any (·.isCandidate) &&
      if intentional then s.hostDisconnectDeadlineMs.isSome else cfg.hostDisconnectGraceMs ≤ 0
  | .connectionLost u _ => s.state ≠ .ended && s.hostUserId == u
  | .rejoin u _ _ =>
    s.state ≠ .ended && s.hostUserId == u && s.hostDisconnectDeadlineMs.isSome
  | _ => false

/-- Changing a viewer's seat to one that is not `reconnecting`. -/
lemma Roster.Coherent.sit_viewer {R : Roster} (h : R.Coherent) {u : Uuid} (hu : u ≠ R.host)
    {x : Seat} (hx : x ≠ ⟨.reconnecting, false⟩) : (R.sit u x).Coherent := by
  refine ⟨?_, fun v => ?_⟩
  · rw [Roster.sit_seat, Roster.sit_host, if_neg hu.symm, Roster.sit_deadline]
    exact h.host
  · rw [Roster.sit_seat]
    split
    · simpa using hx
    · exact h.viewers v

/-- A live user of a running room can leave it. -/
lemma leaveLocked_isSome (cfg : RoomRegistryConfig) {u : Uuid} {p : ParticipantRecord}
    (hopen : s.state ≠ .ended) (hl : s.liveRecord u = some p) (intentional : Bool) (nowMs : ℤ) :
    (leaveLocked cfg s u intentional nowMs).isSome = true := by
  unfold leaveLocked
  rw [if_neg hopen, hl]
  dsimp only
  split
  · rfl
  split
  · rfl
  split
  · split <;> rfl
  · rfl

/-- A host's leave that does not end the room happens in a room with migration. -/
lemma leave_migrates {env : SectionEnv} {store : Store} {u : Uuid} {intentional : Bool}
    {nowMs : ℤ} {out : SectionOutcome (Section.leave u intentional nowMs).Reply}
    (h : (Section.leave u intentional nowMs).run env store s = some out) (hk : s.Keyed)
    (hopen : out.state.state ≠ .ended) (hopen₀ : s.state ≠ .ended) {st : ParticipantStatus}
    (hseat : s.roster.seat u = some ⟨st, true⟩) (hlive : st ≠ .left) :
    s.hostMigrationEnabled = true := by
  obtain ⟨p, hp, hps⟩ := RoomState.roster_seat_eq_some.1 hseat
  have hstatus : p.status = st := congrArg Seat.status hps
  have hl : s.liveRecord u = some p := by
    rw [RoomState.liveRecord_eq hk, hp]
    simpa [hstatus] using hlive
  simp only [Section.run] at h
  split at h
  · rename_i hnone
    simpa [hnone] using leaveLocked_isSome env.cfg hopen₀ hl intentional nowMs
  · rename_i o ho
    cases h
    obtain ⟨-, leaver, hl', rfl, hcase⟩ := leaveLocked_spec ho
    cases hl.symm.trans hl'
    have hhost : p.isHost = true := congrArg Seat.isHost hps
    cases hcase with
    | view _ hv => simp [hhost] at hv
    | close => exact absurd rfl hopen
    | migrate _ _ _ hon => exact hon
    | wait _ hon => exact hon

/-- A viewer who is present may be elected. -/
lemma any_isCandidate {v : Uuid} {st : ParticipantStatus}
    (hv : s.roster.seat v = some ⟨st, false⟩) (hp : st.isPresent = true) :
    s.participants.any (·.isCandidate) = true := by
  obtain ⟨p, hrec, hseat⟩ := RoomState.roster_seat_eq_some.1 hv
  refine List.any_eq_true.2 ⟨p, (mem_of_recordIn hrec).1, ?_⟩
  have hhost : p.isHost = false := congrArg Seat.isHost hseat
  have hstatus : p.status = st := congrArg Seat.status hseat
  simp [ParticipantRecord.isCandidate, hhost, hstatus, hp]

/-- **A section keeps the grace coherent**, unless it unsettles it. -/
theorem Section.run_coherent {env : SectionEnv} {store : Store} {sec : Section}
    {out : SectionOutcome sec.Reply} (h : sec.run env store s = some out) (hk : s.Keyed)
    (hs : s.roster.HostSeat) (hcalm : sec.unsettles env.cfg s = false)
    (hopen : out.state.state ≠ .ended) (hc : s.roster.Coherent) : out.state.roster.Coherent := by
  have hstep := (Section.run_refines hk hs h).step
  have hro : out.state.roster.ended = false := roster_ended_eq_false.2 hopen
  have hopen₀ : s.state ≠ .ended := roster_ended_eq_false.1 (hstep.open hro)
  have hhost {u : Uuid} {st : ParticipantStatus} (hu : s.roster.seat u = some ⟨st, true⟩) :
      u = s.hostUserId := hs.unique u st hu
  have hmig {u : Uuid} {i : Bool} {n : ℤ} (hsec : sec = .leave u i n) {st : ParticipantStatus}
      (hu : s.roster.seat u = some ⟨st, true⟩) (hl : st ≠ .left) :
      s.hostMigrationEnabled = true := by
    subst hsec
    exact leave_migrates h hk hopen hopen₀ hu hl
  clear h
  generalize out.state.roster = R' at hstep hro ⊢
  generalize sec.announced out.reply = owed at hstep
  cases hstep with
  | keep => exact hc
  | join _ hfree =>
    refine hc.sit_viewer ?_ (by simp)
    rintro rfl
    obtain ⟨st, hst, hl⟩ := hs.seated
    exact hfree ⟨_, hst, hl (roster_ended_eq_false.2 hopen₀)⟩
  | leave _ hseat _ => exact hc.sit_viewer (hs.ne_host hseat) (by simp)
  | close => cases hro
  | @elect _ u v nowMs st st' _ hseat hlive hne hv hp =>
    have hu := hhost hseat
    have hdeadline : s.hostDisconnectDeadlineMs = none := by
      simpa [Section.unsettles, hopen₀, hu, hmig rfl hseat hlive, any_isCandidate hv hp]
        using hcalm
    refine ⟨?_, fun w => ?_⟩
    · have hst : st' = .connected := by
        cases st' with
        | connected => rfl
        | reconnecting => exact absurd hv (hc.viewers v)
        | _ => cases hp
      have hd : s.roster.deadline = none := hdeadline
      simp [hst, hd]
    · simp only [Roster.sit_seat]
      split
      · simp
      · split
        · simp
        · exact hc.viewers w
  | @wait _ u nowMs deadline st _ hseat _ =>
    have hu := hhost hseat
    refine ⟨?_, fun w => ?_⟩
    · change (s.roster.sit u _).seat s.hostUserId = _
      rw [Roster.sit_seat, if_pos hu.symm]
      rfl
    · change (s.roster.sit u _).seat w ≠ _
      rw [Roster.sit_seat]
      split
      · simp
      · exact hc.viewers w
  | replace hgrace _ hseat hlive hne hv hp =>
    simp [Section.unsettles, hopen₀, hhost hseat, hmig rfl hseat hlive, any_isCandidate hv hp,
      hgrace] at hcalm
  | @lost _ u nowMs x _ hseat =>
    have hu : u ≠ s.hostUserId := by
      rintro rfl
      simp [Section.unsettles, hopen₀] at hcalm
    exact hc.sit_viewer hu (by simp)
  | hostBack hseat =>
    refine ⟨?_, fun w => ?_⟩
    · change (s.roster.sit s.roster.host _).seat s.roster.host = _
      rw [Roster.sit_seat, if_pos rfl]
      rfl
    · change (s.roster.sit s.roster.host _).seat w ≠ _
      rw [Roster.sit_seat]
      split
      · simp
      · exact hc.viewers w
  | @back _ u pubkey nowMs x hseat =>
    by_cases hu : u = s.hostUserId
    · have hd : s.hostDisconnectDeadlineMs = none := by
        simpa [Section.unsettles, hopen₀, hu] using hcalm
      have hd : s.roster.deadline = none := hd
      have hh : s.roster.host = u := hu.symm
      have hsame : some x = some ⟨.connected, true⟩ := by
        have := hc.host
        rw [hd] at this
        rw [← hseat, hu]
        exact this
      cases hsame
      refine ⟨?_, fun w => ?_⟩
      · rw [Roster.sit_host, Roster.sit_seat, Roster.sit_deadline, hd, if_pos hh]
        rfl
      · rw [Roster.sit_seat]
        split
        · simp
        · exact hc.viewers w
    · exact hc.sit_viewer hu (by simp)
  | revive hseat => exact hc.sit_viewer (hs.ne_host hseat) (by simp)
  | timeout _ _ hseat =>
    refine ⟨?_, fun w => ?_⟩
    · simp only
      rw [if_neg fun hmem => hs.ne_host (hseat _ hmem) rfl]
      exact hc.host
    · simp only
      split
      · simp
      · exact hc.viewers w
  | stale _ _ hseat hleft =>
    refine ⟨?_, fun w => ?_⟩
    · simp only [Roster.clear]
      rw [if_neg]
      · exact hc.host
      · rintro (hmem | hmem)
        · obtain ⟨_, hst, -⟩ := hseat _ hmem
          exact hs.ne_host hst rfl
        · exact hs.ne_host (hleft _ hmem) rfl
    · simp only [Roster.clear]
      split
      · simp
      · exact hc.viewers w
  | expire => cases hro

end Locast.Rooms
