import Locast.Rooms.SectionSpec

/-!
# What sections do to a room's playback

A section leaves the playback of its room as it is, starts a joiner's command counter over, or
accepts the next command of its sender.
-/

namespace Locast.Rooms

open Locast.Lib Locast.Protocol

/-- **What a section does to the playback**, by the command it accepted. -/
inductive PlaybackEffect (s s' : RoomState) : Option PlaybackAcceptedEvent → Prop
  | kept (h : s'.playback = s.playback) : PlaybackEffect s s' none
  | joined (u : Uuid) (hopen : s.state ≠ .ended)
    (h : s'.playback = { s.playback with lastAckedSeq := s.playback.lastAckedSeq.erase u }) :
    PlaybackEffect s s' none
  | accepted (e : PlaybackAcceptedEvent) (hopen : s.state ≠ .ended) (h : s' = s.accept e)
    (hseq : e.serverSeq = s.playback.serverSeq + 1)
    (hmonotonic : e.monotonicSeq = min (s.lastAcked e.senderId + 1) u64Max)
    (hlt : s.playback.serverSeq < u64Max) : PlaybackEffect s s' (some e)

lemma electNewHost_playback {s s' : RoomState} {v : Uuid} (h : electNewHost s = some (v, s')) :
    s'.playback = s.playback := by
  obtain ⟨-, -, -, -, rfl⟩ := electNewHost_spec h
  rfl

lemma LeaveCase.playback {cfg : RoomRegistryConfig} {s : RoomState} {leaver : ParticipantRecord}
    {nowMs : ℤ} {intentional : Bool} {out : LeaveOutcome}
    (h : LeaveCase cfg s leaver nowMs intentional out) : out.state.playback = s.playback := by
  cases h with
  | view => rfl
  | close => rfl
  | migrate v m _ _ he => exact (electNewHost_playback he).trans rfl
  | wait =>
    simp only [leaveWaiting]
    split
    · cases he : electNewHost { s.mark leaver.userId .reconnecting nowMs with
          hostDisconnectDeadlineMs := some (nowMs + cfg.hostDisconnectGraceMs) } with
      | none => rfl
      | some e => exact (electNewHost_playback he).trans rfl
    · rfl

lemma Draws.playback {may : Prop} {s : RoomState} {roomId : Uuid}
    {out : RoomDispatchOutcome × RoomState} (h : Draws may s roomId out) (split : SplitForWire)
    (store : Store) : (drawn split s.id store out).state.playback = s.playback := by
  obtain ⟨drawing, hd⟩ := h.state split store
  rw [hd]

variable {env : SectionEnv} {store : Store} {s : RoomState}

/-- **Every section has such an effect.** -/
theorem Section.run_playback {sec : Section} {out : SectionOutcome sec.Reply}
    (h : sec.run env store s = some out) : PlaybackEffect s out.state (sec.accepted out.reply) := by
  cases sec with
  | join u pubkey displayName nowMs =>
    obtain ⟨⟨reply, s', store'⟩, hj, rfl⟩ := Option.map_eq_some_iff.1 h
    rcases joinLocked_spec hj with ⟨e, -, rfl⟩ | ⟨joined, -, hopen, -, -, rfl, -⟩
    · exact .kept rfl
    · exact .joined u hopen rfl
  | leave u intentional nowMs =>
    simp only [Section.run] at h
    split at h
    · cases h
      exact .kept rfl
    · rename_i out' hl
      cases h
      obtain ⟨-, leaver, -, -, hcase⟩ := leaveLocked_spec hl
      exact .kept hcase.playback
  | connectionLost u nowMs =>
    cases h
    refine .kept ?_
    simp only [SectionOutcome.quiet, connectionLostLocked]
    split <;> rfl
  | rejoinHost u pubkey nowMs =>
    cases h
    exact .kept rfl
  | rejoin u pubkey nowMs =>
    cases h
    exact .kept rfl
  | touch u nowMs =>
    cases h
    exact .kept rfl
  | presenceTimeout nowMs =>
    cases h
    refine .kept ?_
    simp only [SectionOutcome.quiet, presenceTimeoutLocked]
    split <;> rfl
  | stale nowMs =>
    cases h
    refine .kept ?_
    simp only [SectionOutcome.quiet, staleLocked]
    split
    · rfl
    · split <;> rfl
  | grace nowMs =>
    cases h
    refine .kept ?_
    rcases processRoomGrace_spec s nowMs with hg | ⟨deadline, -, -, hg⟩ <;>
      simp [SectionOutcome.quiet, hg]
  | permissionSet caller payload =>
    cases h
    refine .kept ?_
    rcases permissionSetLocked_spec s store caller payload with ⟨-, hs⟩ | ⟨c, -, -, hs⟩
    · exact congrArg (·.playback) hs
    · exact congrArg (·.playback) hs
  | playbackCmd u pubkey payload =>
    cases h
    rcases playbackLocked_spec s payload u pubkey env.clockMs with ⟨e, hr⟩ | ⟨hn, hr⟩
    · simp only [hr]
      exact .kept rfl
    · simp only [hr]
      obtain ⟨hopen, -, -, hmonotonic, hlt⟩ := playbackRefusal_eq_none hn
      exact .accepted _ hopen rfl rfl hmonotonic hlt
  | strokeBegin envelope p u pubkey nowMs =>
    obtain ⟨out', ho, rfl⟩ := Option.map_eq_some_iff.1 h
    exact .kept ((strokeBeginLocked_draws ho).playback _ _)
  | strokePoint envelope p u =>
    obtain ⟨out', ho, rfl⟩ := Option.map_eq_some_iff.1 h
    exact .kept ((handleStrokePoint_draws ho).playback _ _)
  | strokeEnd envelope p u =>
    obtain ⟨out', ho, rfl⟩ := Option.map_eq_some_iff.1 h
    exact .kept ((handleStrokeEnd_draws ho).playback _ _)
  | strokeUndo envelope p u =>
    obtain ⟨out', ho, rfl⟩ := Option.map_eq_some_iff.1 h
    exact .kept ((handleStrokeUndo_draws ho).playback _ _)
  | strokeClear u =>
    cases h
    exact .kept ((handleStrokeClear_draws s u).playback _ _)
  | manifestPublish u pubkey manifest =>
    simp only [Section.run] at h
    split at h <;> cases h <;> exact .kept rfl

/-- Nothing is played in a room that has ended. -/
lemma PlaybackEffect.of_ended {s s' : RoomState} {accepted : Option PlaybackAcceptedEvent}
    (h : PlaybackEffect s s' accepted) (hended : s.state = .ended) : s'.playback = s.playback := by
  cases h with
  | kept h => exact h
  | joined u hopen => exact absurd hended hopen
  | accepted e hopen => exact absurd hended hopen

end Locast.Rooms
