import Locast.Rooms.SectionSpec

/-!
# Write sections refine roster moves

For each write section what it does to the room, and `Section.run_roster`: on a keyed room with one
host every section is a move of the roster.
-/

namespace Locast.Rooms

open Locast.Lib Locast.Protocol

variable {cfg : RoomRegistryConfig} {s s' : RoomState}

/-- A section on `s` that makes the announcements `owed` and leaves `s'`. -/
structure Refines (cfg : RoomRegistryConfig) (sec : Section) (owed : List Announcement)
    (s s' : RoomState) : Prop where
  step : RosterStep cfg sec owed s.roster s'.roster
  keyed : s'.Keyed
  id : s'.id = s.id

/-- A section that leaves the participants, the host, the timer and the end of the room alone. -/
lemma Refines.keep (sec : Section) (hk : s.Keyed) (hid : s'.id = s.id)
    (hended : s'.state = .ended ↔ s.state = .ended)
    (hdeadline : s'.hostDisconnectDeadlineMs = s.hostDisconnectDeadlineMs)
    (hhost : s'.hostUserId = s.hostUserId) (hp : s'.participants = s.participants) :
    Refines cfg sec [] s s' where
  step := by
    have : s'.roster = s.roster :=
      RoomState.roster_congr hended hdeadline hhost fun u => by
        rw [RoomState.roster_seat, RoomState.roster_seat, hp]
    rw [this]
    exact .keep sec
  keyed := by
    rw [RoomState.Keyed, hp]
    exact hk
  id := hid

lemma Refines.same (sec : Section) (hk : s.Keyed) : Refines cfg sec [] s s :=
  .keep sec hk rfl Iff.rfl rfl rfl rfl

lemma roster_ended_eq_false : s.roster.ended = false ↔ s.state ≠ .ended := by
  simp [RoomState.roster]

/-! ### Joining and leaving -/

/-- The election of a room whose leaver is marked, on rosters. -/
lemma roster_election (hk : s.Keyed) (hs : s.roster.HostSeat) {leaver : ParticipantRecord}
    (hl : s.liveRecord leaver.userId = some leaver) (hhost : leaver.isHost = true)
    {marked migrated : RoomState} {v : Uuid} (he : electNewHost marked = some (v, migrated))
    {st : ParticipantStatus} {nowMs : ℤ}
    (hm : marked.participants = (s.mark leaver.userId st nowMs).participants)
    (hme : marked.state = s.state) :
    migrated = marked.withHost v ∧ marked.Keyed ∧ v ≠ leaver.userId ∧
      ∃ st', s.roster.seat v = some ⟨st', false⟩ ∧ st'.isPresent ∧
        migrated.roster = { (s.roster.sit leaver.userId ⟨st, false⟩).sit v ⟨st', true⟩ with
          deadline := marked.hostDisconnectDeadlineMs, host := v } := by
  obtain ⟨p, hp, hc, hv, rfl⟩ := electNewHost_spec he
  have hmk : marked.Keyed := by
    rw [RoomState.Keyed, hm]
    exact RoomState.mark_keyed hk _ _ _
  have hseat : marked.roster.seat = (s.roster.sit leaver.userId ⟨st, true⟩).seat := by
    rw [← hhost, ← RoomState.roster_mark hk hl st nowMs]
    funext w
    rw [RoomState.roster_seat, RoomState.roster_seat, hm]
  simp only [ParticipantRecord.isCandidate, Bool.and_eq_true, Bool.not_eq_true'] at hc
  have hpv : marked.roster.seat v = some ⟨p.status, false⟩ :=
    RoomState.roster_seat_eq_some.2
      ⟨p, hv ▸ recordIn_of_mem hmk hp, by rw [ParticipantRecord.seat, hc.1]⟩
  have hu : s.roster.seat leaver.userId = some ⟨leaver.status, true⟩ := by
    rw [RoomState.liveRecord_eq hk] at hl
    refine RoomState.roster_seat_eq_some.2 ⟨leaver, (Option.filter_eq_some_iff.1 hl).1, ?_⟩
    rw [ParticipantRecord.seat, hhost]
  have huniq (w : Uuid) (st' : ParticipantStatus)
      (hw : marked.roster.seat w = some ⟨st', true⟩) : w = leaver.userId := by
    rw [hseat, Roster.sit_seat] at hw
    split at hw
    · assumption
    · exact (hs.unique w st' hw).trans (hs.unique _ _ hu).symm
  have hne : v ≠ leaver.userId := by
    rintro rfl
    rw [hseat, Roster.sit_seat, if_pos rfl] at hpv
    cases hpv
  have hsv : s.roster.seat v = some ⟨p.status, false⟩ := by
    rw [← hpv, hseat, Roster.sit_seat, if_neg hne]
  refine ⟨rfl, hmk, hne, p.status, hsv, hc.2, ?_⟩
  rw [RoomState.roster_withHost huniq (by rw [hseat, Roster.sit_seat, if_pos rfl]) hpv]
  refine Roster.ext ?_ rfl rfl (funext fun w => ?_)
  · change decide (marked.state = .ended) = decide (s.state = .ended)
    rw [hme]
  · simp only [Roster.sit_seat, hseat]
    split
    · rfl
    · split <;> rfl

/-- **A leave is a move of the roster.** -/
lemma leave_refines (hk : s.Keyed) (hs : s.roster.HostSeat) {u : Uuid} {intentional : Bool}
    {nowMs : ℤ} {out : LeaveOutcome} (h : leaveLocked cfg s u intentional nowMs = some out) :
    Refines cfg (.leave u intentional nowMs) (out.events.filterMap RoomEvent.announcement) s
      out.state := by
  obtain ⟨hopen, leaver, hl, rfl, hcase⟩ := leaveLocked_spec h
  have hro : s.roster.ended = false := roster_ended_eq_false.2 hopen
  have hlive : leaver.status ≠ .left := (RoomState.liveRecord_spec hl).2.2
  have hseat : s.roster.seat leaver.userId = some ⟨leaver.status, leaver.isHost⟩ := by
    rw [RoomState.liveRecord_eq hk] at hl
    exact RoomState.roster_seat_eq_some.2 ⟨leaver, (Option.filter_eq_some_iff.1 hl).1, rfl⟩
  have hmark (st : ParticipantStatus) := RoomState.roster_mark hk hl st nowMs
  cases hcase with
  | view _ hv =>
    rw [hv] at hseat hmark
    refine ⟨?_, RoomState.mark_keyed hk _ _ _, rfl⟩
    change RosterStep _ _ _ _ (s.mark leaver.userId .left nowMs).roster
    rw [hmark]
    exact .leave hro hseat hlive
  | close _ reason hh _ =>
    rw [hh] at hseat hmark
    refine ⟨?_, RoomState.mark_keyed hk _ _ _, rfl⟩
    change RosterStep _ _ _ _ { (s.mark leaver.userId .left nowMs).roster with ended := true }
    rw [hmark]
    exact .close hro hseat hlive
  | migrate v m hh _ he =>
    rw [hh] at hseat
    obtain ⟨rfl, hmk, hne, st', hv, hp, hr⟩ := roster_election hk hs hl hh he rfl rfl
    refine ⟨?_, RoomState.withHost_keyed hmk v, rfl⟩
    simp only [leaveMigrating]
    rw [hr]
    exact .elect hro hseat hlive hne hv hp
  | wait hh _ =>
    rw [hh] at hseat hmark
    have hwait (deadline : ℤ) : RosterStep cfg (.leave leaver.userId false nowMs) [] s.roster
        { (s.mark leaver.userId .reconnecting nowMs).roster with deadline := some deadline } := by
      rw [hmark]
      exact .wait hro hseat hlive
    simp only [leaveWaiting]
    split
    · rename_i hg
      cases he : electNewHost { s.mark leaver.userId .reconnecting nowMs with
          hostDisconnectDeadlineMs := some (nowMs + cfg.hostDisconnectGraceMs) } with
      | none => exact ⟨hwait _, RoomState.mark_keyed hk _ _ _, rfl⟩
      | some e =>
        obtain ⟨v, m⟩ := e
        obtain ⟨rfl, hmk, hne, st', hv, hp, hr⟩ := roster_election hk hs hl hh he rfl rfl
        refine ⟨?_, RoomState.withHost_keyed hmk v, rfl⟩
        simp only [Option.map_some, Option.getD_some]
        rw [hr]
        exact .replace hg hro hseat hlive hne hv hp
    · exact ⟨hwait _, RoomState.mark_keyed hk _ _ _, rfl⟩

/-! ### Transports and ticks -/

/-- A change of the first record of `u`, or of nothing when there is none. -/
lemma update_refines (hk : s.Keyed) {sec : Section} {u : Uuid}
    {f : ParticipantRecord → ParticipantRecord} (hf : ∀ a, (f a).userId = a.userId)
    (hstep : ∀ p, s.record u = some p →
      RosterStep cfg sec [] s.roster (s.roster.sit u (f p).seat)) :
    Refines cfg sec [] s (s.update u f) := by
  cases hr : s.record u with
  | none =>
    rw [RoomState.update_of_none hr]
    exact .same sec hk
  | some p =>
    refine ⟨?_, RoomState.update_keyed hk hf u, rfl⟩
    rw [RoomState.roster_update hf hr]
    exact hstep p hr

lemma connectionLost_refines (hk : s.Keyed) (u : Uuid) (nowMs : ℤ) :
    Refines cfg (.connectionLost u nowMs) [] s (connectionLostLocked s u nowMs) := by
  unfold connectionLostLocked
  split
  · exact .same _ hk
  · rename_i hopen
    refine update_refines hk (fun _ => rfl) fun p hp => ?_
    exact .lost (roster_ended_eq_false.2 hopen) (RoomState.roster_seat_eq_some.2 ⟨p, hp, rfl⟩)

/-- The host's record is the one the host's return changes. -/
lemma rejoinHostLocked_eq (hk : s.Keyed) (hs : s.roster.HostSeat) (pubkey : PubKey) (nowMs : ℤ) :
    rejoinHostLocked s pubkey nowMs = { s.update s.hostUserId
      (fun p => { p with status := .connected, lastSeenMs := nowMs, pubkey }) with
        hostDisconnectDeadlineMs := none } := by
  simp only [rejoinHostLocked, RoomState.update]
  rw [updateFirst_congr fun a ha => RoomState.isHost_iff hk hs ha]

lemma rejoinHost_refines (hk : s.Keyed) (hs : s.roster.HostSeat) (u : Uuid) (pubkey : PubKey)
    (nowMs : ℤ) :
    Refines cfg (.rejoinHost u pubkey nowMs) [] s (rejoinHostLocked s pubkey nowMs) := by
  obtain ⟨st, hst, -⟩ := hs.seated
  obtain ⟨p, hp, hps⟩ := RoomState.roster_seat_eq_some.1 hst
  let f (p : ParticipantRecord) : ParticipantRecord :=
    { p with status := .connected, lastSeenMs := nowMs, pubkey }
  have hf (a : ParticipantRecord) : (f a).userId = a.userId := rfl
  have hfp : (f p).seat = ⟨.connected, true⟩ := by
    rw [ParticipantRecord.seat, show (f p).isHost = true from congrArg Seat.isHost hps]
  rw [rejoinHostLocked_eq hk hs]
  refine ⟨?_, RoomState.update_keyed hk hf s.hostUserId, rfl⟩
  change RosterStep cfg _ _ _ { (s.update s.hostUserId f).roster with deadline := none }
  rw [RoomState.roster_update hf (u := s.hostUserId) hp, hfp]
  exact .hostBack hst

lemma rejoin_refines (hk : s.Keyed) (u : Uuid) (pubkey : PubKey) (nowMs : ℤ) :
    Refines cfg (.rejoin u pubkey nowMs) [] s (rejoinLocked s u pubkey nowMs) :=
  update_refines hk (fun _ => rfl) fun p hp =>
    .back (RoomState.roster_seat_eq_some.2 ⟨p, hp, rfl⟩)

lemma touch_refines (hk : s.Keyed) (u : Uuid) (nowMs : ℤ) :
    Refines cfg (.touch u nowMs) [] s (touchLocked s u nowMs).2 := by
  refine update_refines hk (fun _ => rfl) fun p hp => ?_
  have hseat := RoomState.roster_seat_eq_some.2 ⟨p, hp, rfl⟩
  by_cases hd : (!p.isHost && p.status = .disconnected) = true
  · have ht : (p.touched nowMs).seat = ⟨.connected, false⟩ := by
      simp only [Bool.and_eq_true, Bool.not_eq_true', decide_eq_true_eq] at hd
      simp [ParticipantRecord.touched, ParticipantRecord.seat, hd.1, hd.2]
    have hpd : p.seat = ⟨.disconnected, false⟩ := by
      simp only [Bool.and_eq_true, Bool.not_eq_true', decide_eq_true_eq] at hd
      simp [ParticipantRecord.seat, hd.1, hd.2]
    rw [ht]
    exact .revive (hpd ▸ hseat)
  · have ht : (p.touched nowMs).seat = p.seat := by
      simp only [ParticipantRecord.touched, ParticipantRecord.seat, if_neg hd]
    have hsame : s.roster.sit u p.seat = s.roster := by
      refine Roster.ext rfl rfl rfl (funext fun v => ?_)
      rw [Roster.sit_seat]
      split
      · rename_i hv
        rw [hv, hseat]
      · rfl
    rw [ht, hsame]
    exact .keep _

lemma presenceTimeout_refines (hk : s.Keyed) (nowMs : ℤ) :
    Refines cfg (.presenceTimeout nowMs) ((presenceTimeoutLocked cfg s nowMs).1.map .left) s
      (presenceTimeoutLocked cfg s nowMs).2 := by
  unfold presenceTimeoutLocked
  split
  · exact .same _ hk
  · rename_i hopen
    have hf (a : ParticipantRecord) : (if a.timesOut cfg nowMs then
        { a with status := .disconnected } else a).userId = a.userId := by split <;> rfl
    have hout (p : ParticipantRecord) (hp : p.timesOut cfg nowMs) :
        p.seat = ⟨.connected, false⟩ := by
      simp only [ParticipantRecord.timesOut, Bool.and_eq_true, Bool.not_eq_true',
        decide_eq_true_eq] at hp
      simp [ParticipantRecord.seat, hp.1.1, hp.1.2]
    have hseat (u : Uuid) (hu : u ∈ (s.participants.filter (·.timesOut cfg nowMs)).map (·.userId)) :
        s.roster.seat u = some ⟨.connected, false⟩ := by
      obtain ⟨p, hp, ht⟩ := (RoomState.mem_users hk).1 hu
      exact RoomState.roster_seat_eq_some.2 ⟨p, hp, hout p ht⟩
    have hstep : RosterStep cfg (.presenceTimeout nowMs) _ s.roster _ :=
      .timeout (roster_ended_eq_false.2 hopen) (RoomState.users_nodup hk _) hseat
    refine ⟨?_, ?_, rfl⟩
    · refine (congrArg (RosterStep cfg _ _ _) ?_).mp hstep
      refine Roster.ext rfl rfl rfl (funext fun v => ?_)
      rw [RoomState.roster_map hf]
      simp only [RoomState.mem_users hk]
      cases hr : s.record v with
      | none =>
        rw [if_neg (by simp)]
        exact congrArg (Option.map _) hr
      | some p =>
        by_cases ht : p.timesOut cfg nowMs
        · rw [if_pos ⟨p, rfl, ht⟩, Option.map_some, if_pos ht]
          have := congrArg Seat.isHost (hout p ht)
          simp only [ParticipantRecord.seat] at this ⊢
          rw [this]
        · rw [if_neg (by rintro ⟨q, hq, hqt⟩; cases hq; exact ht hqt), Option.map_some, if_neg ht]
          exact RoomState.roster_seat_eq_some.2 ⟨p, hr, rfl⟩
    · rw [RoomState.Keyed, List.map_map]
      refine (congrArg List.Nodup (List.map_congr_left fun a _ => ?_)).mp hk
      exact (hf a).symm

lemma stale_refines (hk : s.Keyed) (nowMs : ℤ) :
    Refines cfg (.stale nowMs) ((staleLocked cfg s nowMs).1.map .left) s
      (staleLocked cfg s nowMs).2 := by
  unfold staleLocked
  split
  · exact .same _ hk
  rename_i hopen
  split
  · exact .same _ hk
  simp only [List.filter_filter]
  have hviewer (p : ParticipantRecord) (hp : p.isStale cfg nowMs) : p.isHost = false := by
    simp only [ParticipantRecord.isStale, Bool.and_eq_true, Bool.not_eq_true'] at hp
    exact hp.1
  let gone (p : ParticipantRecord) : Bool := (p.status ≠ .left && p.isStale cfg nowMs) &&
    !(p.status = .left && p.isStale cfg nowMs)
  let forgotten (p : ParticipantRecord) : Bool := p.status = .left && p.isStale cfg nowMs
  have hgone (u : Uuid) (hu : u ∈ (s.participants.filter gone).reverse.map (·.userId)) :
      ∃ st, s.roster.seat u = some ⟨st, false⟩ ∧ st ≠ .left := by
    rw [List.map_reverse, List.mem_reverse] at hu
    obtain ⟨p, hp, ht⟩ := (RoomState.mem_users hk).1 hu
    simp only [gone, Bool.and_eq_true, decide_eq_true_eq] at ht
    refine ⟨p.status, RoomState.roster_seat_eq_some.2 ⟨p, hp, ?_⟩, ht.1.1⟩
    rw [ParticipantRecord.seat, hviewer p ht.1.2]
  have hforgotten (u : Uuid) (hu : u ∈ (s.participants.filter forgotten).map (·.userId)) :
      s.roster.seat u = some ⟨.left, false⟩ := by
    obtain ⟨p, hp, ht⟩ := (RoomState.mem_users hk).1 hu
    simp only [forgotten, Bool.and_eq_true, decide_eq_true_eq] at ht
    refine RoomState.roster_seat_eq_some.2 ⟨p, hp, ?_⟩
    rw [ParticipantRecord.seat, hviewer p ht.2, ht.1]
  have hnodup : ((s.participants.filter gone).reverse.map (·.userId)).Nodup := by
    rw [List.map_reverse, List.nodup_reverse]
    exact RoomState.users_nodup hk _
  have hstep : RosterStep cfg (.stale nowMs) _ s.roster _ :=
    .stale (roster_ended_eq_false.2 hopen) hnodup hgone hforgotten
  refine ⟨?_, hk.sublist (List.filter_sublist.map _), rfl⟩
  refine (congrArg (RosterStep cfg _ _ _) ?_).mp hstep
  refine Roster.ext rfl rfl rfl (funext fun v => ?_)
  change (if _ then none else s.roster.seat v) = Option.map _ (recordIn _ v)
  rw [recordIn_filter hk, ← RoomState.record_eq, RoomState.roster_seat, ← RoomState.record_eq]
  simp only [List.map_reverse, List.mem_reverse, RoomState.mem_users hk, gone, forgotten]
  cases hr : s.record v with
  | none =>
    rw [if_neg (by simp)]
    rfl
  | some p =>
    by_cases ht : p.isStale cfg nowMs <;> by_cases hl : p.status = .left <;> simp [ht, hl]

lemma grace_refines (hk : s.Keyed) (nowMs : ℤ) :
    Refines cfg (.grace nowMs) [] s (processRoomGrace s nowMs).2 := by
  have hend {deadline : ℤ} (hd : s.hostDisconnectDeadlineMs = some deadline)
      (hdue : ¬nowMs < deadline) :
      Refines cfg (.grace nowMs) [] s { s with state := .ended } := by
    refine ⟨?_, hk, rfl⟩
    exact RosterStep.expire (R := s.roster) hd (by omega)
  unfold processRoomGrace
  split
  · exact .same _ hk
  rename_i deadline hd
  split
  · exact .same _ hk
  rename_i hdue
  simp only [tryMigrateHost]
  split <;> exact hend hd hdue

/-! ### Commands -/

/-- A change that keeps user ids and seats keeps every seat. -/
lemma recordIn_updateFirst_seat {p : ParticipantRecord → Bool}
    {f : ParticipantRecord → ParticipantRecord} (hf : ∀ a, (f a).userId = a.userId)
    (hfs : ∀ a, (f a).seat = a.seat) (l : List ParticipantRecord) (u : Uuid) :
    (recordIn (updateFirst p f l) u).map (·.seat) = (recordIn l u).map (·.seat) := by
  induction l with
  | nil => rfl
  | cons a l ih =>
    rw [updateFirst]
    split
    · rw [recordIn_cons, recordIn_cons, hf]
      split
      · rw [Option.map_some, Option.map_some, hfs]
      · rfl
    · rw [recordIn_cons, recordIn_cons]
      split
      · rfl
      · exact ih

lemma permissionSet_refines (hk : s.Keyed) (store : Store) (caller : Uuid)
    (payload : PermissionSetPayload) :
    Refines cfg (.permissionSet caller payload) [] s
      (permissionSetLocked s store caller payload).2.1 := by
  rcases permissionSetLocked_spec s store caller payload with ⟨-, h⟩ | ⟨capSet, -, -, h⟩
  · rw [h]
    exact .same _ hk
  · rw [h]
    refine ⟨?_, ?_, rfl⟩
    · have : (s.grant payload.targetUserId capSet).roster = s.roster :=
        RoomState.roster_congr Iff.rfl rfl rfl fun u =>
          recordIn_updateFirst_seat (f := fun p => { p with capSet := capSet }) (fun _ => rfl)
            (fun _ => rfl) s.participants u
      rw [this]
      exact .keep _
    · rw [RoomState.Keyed, RoomState.grant, map_updateFirst]
      · exact hk
      · exact fun _ => rfl

lemma playback_refines (hk : s.Keyed) (payload : PlaybackCommandPayload) (u : Uuid)
    (pubkey : PubKey) (clockMs : ℤ) :
    Refines cfg (.playbackCmd u pubkey payload) [] s
      (playbackLocked s payload u pubkey clockMs).2 := by
  rcases playbackLocked_spec s payload u pubkey clockMs with ⟨e, h⟩ | ⟨hn, h⟩
  · rw [h]
    exact .same _ hk
  · rw [h]
    obtain ⟨hopen, -, hacc, -⟩ := playbackRefusal_eq_none hn
    refine .keep _ hk rfl ?_ rfl rfl rfl
    exact iff_of_false (accepts_ne_ended hacc).2 hopen

lemma Draws.refines {may : Prop} {roomId : Uuid} {out : RoomDispatchOutcome × RoomState}
    (h : Draws may s roomId out) (hk : s.Keyed) (split : SplitForWire) (store : Store)
    (sec : Section) : Refines cfg sec [] s (drawn split s.id store out).state := by
  obtain ⟨drawing, hd⟩ := h.state split store
  rw [hd]
  exact .keep sec hk rfl Iff.rfl rfl rfl rfl

/-! ### Every section -/

/-- **Every write section refines a move of the roster.** -/
theorem Section.run_refines {env : SectionEnv} {store : Store} (hk : s.Keyed)
    (hs : s.roster.HostSeat) {sec : Section} {out : SectionOutcome sec.Reply}
    (h : sec.run env store s = some out) :
    Refines env.cfg sec (sec.announced out.reply) s out.state := by
  cases sec with
  | join u pubkey displayName nowMs =>
    obtain ⟨⟨reply, s', store'⟩, hj, rfl⟩ := Option.map_eq_some_iff.1 h
    rcases joinLocked_spec hj with ⟨e, rfl, rfl⟩ | ⟨joined, rfl, hopen, hfree, -, rfl, -⟩
    · exact .same _ hk
    · have hf : ¬s.roster.Live u := by
        rw [← RoomState.isMember_iff hk, hfree]
        exact Bool.false_ne_true
      refine ⟨?_, RoomState.withJoined_keyed hk hf, rfl⟩
      simp only [SectionOutcome.quiet]
      rw [RoomState.roster_withJoined hk hf]
      exact .join (roster_ended_eq_false.2 hopen) hf
  | leave u intentional nowMs =>
    simp only [Section.run] at h
    split at h
    · cases h
      exact .same _ hk
    · rename_i out' hl
      cases h
      exact leave_refines hk hs hl
  | connectionLost u nowMs =>
    cases h
    exact connectionLost_refines hk u nowMs
  | rejoinHost u pubkey nowMs =>
    cases h
    exact rejoinHost_refines hk hs u pubkey nowMs
  | rejoin u pubkey nowMs =>
    cases h
    exact rejoin_refines hk u pubkey nowMs
  | touch u nowMs =>
    cases h
    exact touch_refines hk u nowMs
  | presenceTimeout nowMs =>
    cases h
    exact presenceTimeout_refines hk nowMs
  | stale nowMs =>
    cases h
    exact stale_refines hk nowMs
  | grace nowMs =>
    cases h
    exact grace_refines hk nowMs
  | permissionSet caller payload =>
    cases h
    exact permissionSet_refines hk store caller payload
  | playbackCmd u pubkey payload =>
    cases h
    exact playback_refines hk payload u pubkey env.clockMs
  | strokeBegin envelope p u pubkey nowMs =>
    obtain ⟨out', ho, rfl⟩ := Option.map_eq_some_iff.1 h
    exact (strokeBeginLocked_draws ho).refines hk _ _ _
  | strokePoint envelope p u =>
    obtain ⟨out', ho, rfl⟩ := Option.map_eq_some_iff.1 h
    exact (handleStrokePoint_draws ho).refines hk _ _ _
  | strokeEnd envelope p u =>
    obtain ⟨out', ho, rfl⟩ := Option.map_eq_some_iff.1 h
    exact (handleStrokeEnd_draws ho).refines hk _ _ _
  | strokeUndo envelope p u =>
    obtain ⟨out', ho, rfl⟩ := Option.map_eq_some_iff.1 h
    exact (handleStrokeUndo_draws ho).refines hk _ _ _
  | strokeClear u =>
    cases h
    exact (handleStrokeClear_draws s u).refines hk _ _ _
  | manifestPublish u pubkey manifest =>
    simp only [Section.run] at h
    split at h <;> cases h <;> exact .same _ hk

/-! ### The end of a room -/

/-- **When a room is ended after a section.** -/
theorem Section.ended_iff {env : SectionEnv} {store : Store} {sec : Section}
    {out : SectionOutcome sec.Reply} (h : sec.run env store s = some out) :
    out.state.state = .ended ↔ s.state = .ended ∨ sec.ends out.reply = true := by
  have hdraws {may : Prop} {roomId : Uuid} {out : RoomDispatchOutcome × RoomState}
      (hd : Draws may s roomId out) :
      (drawn env.crates.splitPublished s.id store out).state.state = s.state := by
    obtain ⟨drawing, hs⟩ := hd.state env.crates.splitPublished store
    rw [hs]
  cases sec with
  | join u pubkey displayName nowMs =>
    obtain ⟨⟨reply, s', store'⟩, hj, rfl⟩ := Option.map_eq_some_iff.1 h
    rcases joinLocked_spec hj with ⟨e, rfl, rfl⟩ | ⟨joined, rfl, -, -, -, rfl, -⟩ <;>
      simp [SectionOutcome.quiet, Section.ends, RoomState.withJoined]
  | leave u intentional nowMs =>
    simp only [Section.run] at h
    split at h
    · cases h
      simp [SectionOutcome.quiet, Section.ends]
    · rename_i out' hl
      cases h
      simp [SectionOutcome.quiet, Section.ends, (leaveLocked_spec hl).1]
  | connectionLost u nowMs =>
    cases h
    simp only [SectionOutcome.quiet, Section.ends, connectionLostLocked]
    split <;> simp
  | presenceTimeout nowMs =>
    cases h
    simp only [SectionOutcome.quiet, Section.ends, presenceTimeoutLocked]
    split <;> simp
  | stale nowMs =>
    cases h
    simp only [SectionOutcome.quiet, Section.ends, staleLocked]
    split
    · simp
    · split <;> simp
  | grace nowMs =>
    cases h
    rcases processRoomGrace_spec s nowMs with hg | ⟨deadline, -, -, hg⟩ <;>
      simp [hg, SectionOutcome.quiet, Section.ends]
  | permissionSet caller payload =>
    cases h
    rcases permissionSetLocked_spec s store caller payload with ⟨-, hp⟩ | ⟨capSet, -, -, hp⟩ <;>
      simp [hp, Section.ends, RoomState.grant]
  | playbackCmd u pubkey payload =>
    cases h
    rcases playbackLocked_spec s payload u pubkey env.clockMs with ⟨e, hp⟩ | ⟨hn, hp⟩
    · simp [hp, Section.ends]
    · obtain ⟨hopen, -, hacc, -⟩ := playbackRefusal_eq_none hn
      have hrunning : (s.accept (acceptedEvent s payload u env.clockMs)).state ≠ .ended :=
        (accepts_ne_ended hacc).2
      simp [hp, Section.ends, hrunning, hopen]
  | strokeBegin envelope p u pubkey nowMs =>
    obtain ⟨out', ho, rfl⟩ := Option.map_eq_some_iff.1 h
    simp [hdraws (strokeBeginLocked_draws ho), Section.ends]
  | strokePoint envelope p u =>
    obtain ⟨out', ho, rfl⟩ := Option.map_eq_some_iff.1 h
    simp [hdraws (handleStrokePoint_draws ho), Section.ends]
  | strokeEnd envelope p u =>
    obtain ⟨out', ho, rfl⟩ := Option.map_eq_some_iff.1 h
    simp [hdraws (handleStrokeEnd_draws ho), Section.ends]
  | strokeUndo envelope p u =>
    obtain ⟨out', ho, rfl⟩ := Option.map_eq_some_iff.1 h
    simp [hdraws (handleStrokeUndo_draws ho), Section.ends]
  | strokeClear u =>
    cases h
    simp [hdraws (handleStrokeClear_draws s u), Section.ends]
  | manifestPublish u pubkey manifest =>
    simp only [Section.run] at h
    split at h <;> cases h <;> simp [SectionOutcome.quiet, Section.ends]
  | rejoinHost | rejoin | touch =>
    cases h
    simp [SectionOutcome.quiet, Section.ends, rejoinHostLocked, rejoinLocked, touchLocked]

/-- Only a publication keeps the lock, only in a room that runs, and it leaves the room as it is. -/
lemma Section.run_held {env : SectionEnv} {store : Store} {sec : Section}
    {out : SectionOutcome sec.Reply} (h : sec.run env store s = some out)
    (hheld : out.held = true) :
    s.state ≠ .ended ∧ sec.ends out.reply = false ∧ out.state = s := by
  cases sec with
  | manifestPublish u pubkey manifest =>
    simp only [Section.run] at h
    split at h
    · rename_i c' hp
      cases h
      exact ⟨(manifestPublishLocked_spec hp).1, rfl, rfl⟩
    · cases h
      cases hheld
  | leave =>
    simp only [Section.run] at h
    split at h <;> cases h <;> cases hheld
  | join | strokeBegin | strokePoint | strokeEnd | strokeUndo =>
    obtain ⟨_, -, rfl⟩ := Option.map_eq_some_iff.1 h
    cases hheld
  | _ =>
    cases h
    cases hheld

/-- A room that has ended keeps its host. -/
lemma RosterStep.host_of_ended {sec : Section} {owed : List Announcement} {R R' : Roster}
    (h : RosterStep cfg sec owed R R') (he : R.ended = true) : R'.host = R.host := by
  cases h <;> first | rfl | simp_all

/-- Nobody joins a room that has ended. -/
lemma RosterStep.seat_of_ended {sec : Section} {owed : List Announcement} {R R' : Roster}
    (h : RosterStep cfg sec owed R R') (he : R.ended = true) {u : Uuid} (hu : (R'.seat u).isSome) :
    (R.seat u).isSome := by
  have hsit {v : Uuid} {x y : Seat} (hv : R.seat v = some x) (h : ((R.sit v y).seat u).isSome) :
      (R.seat u).isSome := by
    rw [Roster.sit_seat] at h
    split at h
    · rename_i huv
      rw [huv, hv]
      rfl
    · exact h
  cases h with
  | keep => exact hu
  | hostBack hseat => exact hsit hseat hu
  | back hseat => exact hsit hseat hu
  | revive hseat => exact hsit hseat hu
  | expire => exact hu
  | _ => simp_all

end Locast.Rooms
