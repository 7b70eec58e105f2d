import Locast.Rooms.DrawingLog
import Locast.Rooms.PlaybackLog
import Mathlib.Data.List.Induction

/-!
# The order of a room's playback commands

Over the life of a room the accepted commands are numbered without a gap, each sender counts up from
one after every join, and the snapshot for a client that was not there is what the commands come to.
-/

namespace Locast.Rooms

open Locast.Lib Locast.Protocol

/-! ### What the commands come to -/

/-- What a section is to the numbering of commands: a sender joined, or a command was accepted. -/
inductive PlaybackTurn where
  | joined (u : Uuid)
  | accepted (e : PlaybackAcceptedEvent)

/-- The command that was accepted. -/
def PlaybackTurn.event : PlaybackTurn → Option PlaybackAcceptedEvent
  | .joined _ => none
  | .accepted e => some e

/-- The accepted commands, in order. -/
def commands (ts : List PlaybackTurn) : List PlaybackAcceptedEvent :=
  ts.filterMap PlaybackTurn.event

/-- The commands of `u` since `u` last joined, one turn later. -/
def heard (u : Uuid) (since : List PlaybackAcceptedEvent) :
    PlaybackTurn → List PlaybackAcceptedEvent
  | .joined v => if v = u then [] else since
  | .accepted e => if e.senderId = u then since ++ [e] else since

/-- The commands of `u` that were accepted since `u` last joined. -/
def sinceJoin (u : Uuid) (ts : List PlaybackTurn) : List PlaybackAcceptedEvent :=
  ts.foldl (heard u) []

/-- The lifecycle of a room that was opened and took the commands: a `SEEK` keeps what it finds. -/
def lifecycleAfter (cs : List PlaybackAcceptedEvent) : RoomLifecycle :=
  cs.foldl (fun st e => st.after e.action) .open

/-- What the commands come to, for a client that was not there. -/
def snapshotOf (cs : List PlaybackAcceptedEvent) : Option PlaybackSnapshot :=
  cs.getLast?.map fun e =>
    { paused := lifecycleAfter cs = .paused
      mediaPositionMs := e.mediaPositionMs
      serverTsMs := e.serverTsMs
      serverSeq := e.serverSeq
      senderId := e.senderId
      monotonicSeq := e.monotonicSeq }

@[simp] lemma commands_append (ts ts' : List PlaybackTurn) :
    commands (ts ++ ts') = commands ts ++ commands ts' := List.filterMap_append

@[simp] lemma commands_joined (u : Uuid) : commands [.joined u] = [] := rfl

@[simp] lemma commands_accepted (e : PlaybackAcceptedEvent) : commands [.accepted e] = [e] := rfl

@[simp] lemma sinceJoin_append (u : Uuid) (ts : List PlaybackTurn) (t : PlaybackTurn) :
    sinceJoin u (ts ++ [t]) = heard u (sinceJoin u ts) t := by simp [sinceJoin]

@[simp] lemma lifecycleAfter_append (cs : List PlaybackAcceptedEvent) (e : PlaybackAcceptedEvent) :
    lifecycleAfter (cs ++ [e]) = (lifecycleAfter cs).after e.action := by simp [lifecycleAfter]

/-- Commands end no room. -/
lemma lifecycleAfter_ne_ended (cs : List PlaybackAcceptedEvent) : lifecycleAfter cs ≠ .ended := by
  induction cs using List.reverseRecOn with
  | nil => exact fun h => by cases h
  | append_singleton cs e ih =>
    rw [lifecycleAfter_append]
    cases e.action with
    | play => exact fun h => by cases h
    | pause => exact fun h => by cases h
    | seek => exact ih

/-! ### Turns -/

/-- The turn a section takes. -/
def Section.playbackTurn : (sec : Section) → sec.Reply → Option PlaybackTurn
  | .join u .., .ok _ => some (.joined u)
  | .playbackCmd .., .ok e => some (.accepted e)
  | _, _ => none

/-- **What a turn does to the playback and the lifecycle of its room.** -/
inductive TurnEffect (s s' : RoomState) : Option PlaybackTurn → Prop
  | kept (hp : s'.playback = s.playback) (hs : s'.state = s.state ∨ s'.state = .ended) :
    TurnEffect s s' none
  | joined (u : Uuid)
    (hp : s'.playback = { s.playback with lastAckedSeq := s.playback.lastAckedSeq.erase u })
    (hs : s'.state = s.state) (hopen : s.state ≠ .ended) : TurnEffect s s' (some (.joined u))
  | accepted (e : PlaybackAcceptedEvent) (h : s' = s.accept e)
    (haccepts : s.state.accepts e.action = true) (hseq : e.serverSeq = s.playback.serverSeq + 1)
    (hmonotonic : e.monotonicSeq = min (s.lastAcked e.senderId + 1) u64Max) :
    TurnEffect s s' (some (.accepted e))

lemma LeaveCase.lifecycle {cfg : RoomRegistryConfig} {s : RoomState} {leaver : ParticipantRecord}
    {nowMs : ℤ} {intentional : Bool} {out : LeaveOutcome}
    (h : LeaveCase cfg s leaver nowMs intentional out) :
    out.state.state = s.state ∨ out.state.state = .ended := by
  have helect {t m : RoomState} {v : Uuid} (he : electNewHost t = some (v, m)) :
      m.state = t.state := by
    obtain ⟨-, -, -, -, rfl⟩ := electNewHost_spec he
    rfl
  cases h with
  | view => exact .inl rfl
  | close => exact .inr rfl
  | migrate v m _ _ he => exact .inl ((helect he).trans rfl)
  | wait =>
    left
    simp only [leaveWaiting]
    split
    · cases he : electNewHost { s.mark leaver.userId .reconnecting nowMs with
          hostDisconnectDeadlineMs := some (nowMs + cfg.hostDisconnectGraceMs) } with
      | none => rfl
      | some e => exact (helect he).trans rfl
    · rfl

lemma Draws.turnEffect {may : Prop} {s : RoomState} {roomId : Uuid}
    {out : RoomDispatchOutcome × RoomState} (h : Draws may s roomId out) (split : SplitForWire)
    (store : Store) : TurnEffect s (drawn split s.id store out).state none := by
  obtain ⟨drawing, hd⟩ := h.state split store
  rw [hd]
  exact .kept rfl (.inl rfl)

variable {env : SectionEnv} {store : Store} {s s' : RoomState}

/-- **Every section has the effect of its turn.** -/
theorem Section.run_turn {sec : Section} {out : SectionOutcome sec.Reply}
    (h : sec.run env store s = some out) :
    TurnEffect s out.state (sec.playbackTurn out.reply) := by
  cases sec with
  | join u pubkey displayName nowMs =>
    obtain ⟨⟨reply, s', store'⟩, hj, rfl⟩ := Option.map_eq_some_iff.1 h
    rcases joinLocked_spec hj with ⟨e, rfl, rfl⟩ | ⟨joined, rfl, hopen, -, -, rfl, -⟩
    · exact .kept rfl (.inl rfl)
    · exact .joined u rfl rfl hopen
  | leave u intentional nowMs =>
    simp only [Section.run] at h
    split at h
    · cases h
      exact .kept rfl (.inl rfl)
    · rename_i out' hl
      cases h
      obtain ⟨-, leaver, -, -, hcase⟩ := leaveLocked_spec hl
      exact .kept hcase.playback hcase.lifecycle
  | connectionLost u nowMs =>
    cases h
    simp only [SectionOutcome.quiet, connectionLostLocked, Section.playbackTurn]
    split <;> exact .kept rfl (.inl rfl)
  | rejoinHost u pubkey nowMs =>
    cases h
    exact .kept rfl (.inl rfl)
  | rejoin u pubkey nowMs =>
    cases h
    exact .kept rfl (.inl rfl)
  | touch u nowMs =>
    cases h
    exact .kept rfl (.inl rfl)
  | presenceTimeout nowMs =>
    cases h
    simp only [SectionOutcome.quiet, presenceTimeoutLocked, Section.playbackTurn]
    split <;> exact .kept rfl (.inl rfl)
  | stale nowMs =>
    cases h
    simp only [SectionOutcome.quiet, staleLocked, Section.playbackTurn]
    split
    · exact .kept rfl (.inl rfl)
    · split <;> exact .kept rfl (.inl rfl)
  | grace nowMs =>
    cases h
    rcases processRoomGrace_spec s nowMs with hg | ⟨deadline, -, -, hg⟩
    · simp only [SectionOutcome.quiet, hg]
      exact .kept rfl (.inl rfl)
    · simp only [SectionOutcome.quiet, hg]
      exact .kept rfl (.inr rfl)
  | permissionSet caller payload =>
    cases h
    rcases permissionSetLocked_spec s store caller payload with ⟨-, hs⟩ | ⟨c, -, -, hs⟩
    · simp only [hs]
      exact .kept rfl (.inl rfl)
    · simp only [hs]
      exact .kept rfl (.inl rfl)
  | playbackCmd u pubkey payload =>
    cases h
    rcases playbackLocked_spec s payload u pubkey env.clockMs with ⟨e, hr⟩ | ⟨hn, hr⟩
    · simp only [hr]
      exact .kept rfl (.inl rfl)
    · simp only [hr]
      obtain ⟨-, -, haccepts, hmonotonic, -⟩ := playbackRefusal_eq_none hn
      exact .accepted _ rfl haccepts rfl hmonotonic
  | strokeBegin envelope p u pubkey nowMs =>
    obtain ⟨out', ho, rfl⟩ := Option.map_eq_some_iff.1 h
    exact (strokeBeginLocked_draws ho).turnEffect _ _
  | strokePoint envelope p u =>
    obtain ⟨out', ho, rfl⟩ := Option.map_eq_some_iff.1 h
    exact (handleStrokePoint_draws ho).turnEffect _ _
  | strokeEnd envelope p u =>
    obtain ⟨out', ho, rfl⟩ := Option.map_eq_some_iff.1 h
    exact (handleStrokeEnd_draws ho).turnEffect _ _
  | strokeUndo envelope p u =>
    obtain ⟨out', ho, rfl⟩ := Option.map_eq_some_iff.1 h
    exact (handleStrokeUndo_draws ho).turnEffect _ _
  | strokeClear u =>
    cases h
    exact (handleStrokeClear_draws s u).turnEffect _ _
  | manifestPublish u pubkey manifest =>
    simp only [Section.run] at h
    split at h <;> cases h <;> exact .kept rfl (.inl rfl)

/-! ### The invariant -/

/-- A room before its first command. -/
structure RoomState.Unplayed (s : RoomState) : Prop where
  state_eq : s.state = .open
  playback_eq : s.playback = .empty

/-- A room in which nothing has been played and nothing drawn. -/
structure RoomState.Fresh (s : RoomState) : Prop where
  unplayed : s.Unplayed
  undrawn : ∃ wallMs, s.drawing = .new wallMs

/-- **The commands of a room and its bookkeeping**, after the turns `ts`. -/
structure CommandsOf (ts : List PlaybackTurn) (s : RoomState) : Prop where
  seqs : (commands ts).map (·.serverSeq) = (List.range (commands ts).length).map (· + 1)
  next : s.playback.serverSeq = (commands ts).length
  own : ∀ u, (sinceJoin u ts).map (·.monotonicSeq) =
    (List.range (sinceJoin u ts).length).map fun i => min (i + 1) u64Max
  acked : ∀ u, s.lastAcked u = min (sinceJoin u ts).length u64Max
  running : s.state ≠ .ended → s.state = lifecycleAfter (commands ts)
  opened : lifecycleAfter (commands ts) = .open → commands ts = []
  last : ∀ e, (commands ts).getLast? = some e → s.playback.lastPositionMs = e.mediaPositionMs ∧
    s.playback.lastServerTsMs = e.serverTsMs ∧ s.playback.lastSender = some e.senderId ∧
    s.playback.lastMonotonicSeq = e.monotonicSeq

variable {ts : List PlaybackTurn}

lemma CommandsOf.start (h : s.Unplayed) : CommandsOf [] s := by
  refine ⟨rfl, by rw [h.playback_eq]; rfl, fun u => rfl, fun u => ?_, fun _ => h.state_eq,
    fun _ => rfl, fun e he => by cases he⟩
  rw [RoomState.lastAcked, h.playback_eq]
  rfl

lemma map_range_snoc {f : ℕ → ℕ} {l : List ℕ} {n : ℕ} (h : l = (List.range n).map f) :
    l ++ [f n] = (List.range (n + 1)).map f := by
  rw [h, List.range_succ, List.map_append, List.map_singleton]

/-- A command of a room that runs. -/
lemma CommandsOf.accepted (h : CommandsOf ts s) {e : PlaybackAcceptedEvent}
    (haccepts : s.state.accepts e.action = true) (hseq : e.serverSeq = s.playback.serverSeq + 1)
    (hmonotonic : e.monotonicSeq = min (s.lastAcked e.senderId + 1) u64Max) :
    CommandsOf (ts ++ [.accepted e]) (s.accept e) := by
  have hrunning := h.running (accepts_ne_ended haccepts).1
  have hmono : e.monotonicSeq = min ((sinceJoin e.senderId ts).length + 1) u64Max := by
    rw [hmonotonic, h.acked]
    omega
  have hacked (u : Uuid) : (s.accept e).lastAcked u =
      if e.senderId = u then e.monotonicSeq else s.lastAcked u := by
    by_cases hu : e.senderId = u
    · simp [RoomState.lastAcked, RoomState.accept, hu]
    · simp [RoomState.lastAcked, RoomState.accept, AList.get_insert, hu, Ne.symm hu]
  refine ⟨?_, ?_, fun u => ?_, fun u => ?_, fun _ => ?_, fun hopen => ?_, fun e' he' => ?_⟩
  · rw [commands_append, commands_accepted, List.map_append, List.map_singleton, hseq, h.next,
      List.length_append, List.length_singleton]
    exact map_range_snoc h.seqs
  · simp [RoomState.accept, hseq, h.next]
  · rw [sinceJoin_append, heard]
    split_ifs with hu
    · subst hu
      rw [List.map_append, List.map_singleton, hmono, List.length_append, List.length_singleton]
      exact map_range_snoc (f := fun i => min (i + 1) u64Max) (h.own e.senderId)
    · exact h.own u
  · rw [hacked, sinceJoin_append, heard]
    split_ifs with hu
    · subst hu
      rw [hmono, List.length_append, List.length_singleton]
    · exact h.acked u
  · rw [commands_append, commands_accepted, lifecycleAfter_append, ← hrunning]
    rfl
  · -- only a `PLAY` is taken by a room that has not played, and no command opens a room again
    rw [commands_append, commands_accepted, lifecycleAfter_append, ← hrunning] at hopen
    cases hstate : s.state <;> cases haction : e.action <;>
      simp [hstate, haction, RoomLifecycle.after, RoomLifecycle.accepts] at hopen haccepts
  · rw [commands_append, commands_accepted, List.getLast?_concat, Option.some.injEq] at he'
    subst he'
    exact ⟨rfl, rfl, rfl, rfl⟩

/-- **Every turn keeps the bookkeeping in step with the commands.** -/
lemma CommandsOf.step (h : CommandsOf ts s) {t : Option PlaybackTurn} (ht : TurnEffect s s' t) :
    CommandsOf (ts ++ t.toList) s' := by
  cases ht with
  | kept hp hs =>
    rw [Option.toList_none, List.append_nil]
    refine ⟨h.seqs, by rw [hp, h.next], h.own, fun u => by
      rw [← h.acked, RoomState.lastAcked, hp]; rfl, fun hopen => ?_, h.opened, fun e he => by
        rw [hp]; exact h.last e he⟩
    have hstate := hs.resolve_right hopen
    rw [hstate]
    exact h.running (hstate ▸ hopen)
  | joined u hp hs hopen =>
    have hcommands : commands (ts ++ [.joined u]) = commands ts := by simp
    have hacked (v : Uuid) : s'.lastAcked v = if u = v then 0 else s.lastAcked v := by
      by_cases hu : u = v
      · simp [RoomState.lastAcked, hp, AList.get_erase, hu]
      · simp [RoomState.lastAcked, hp, AList.get_erase, hu, Ne.symm hu]
    rw [Option.toList_some]
    refine ⟨by rw [hcommands, h.seqs], by rw [hcommands, hp, ← h.next], fun v => ?_, fun v => ?_,
      fun hrun => ?_, by rw [hcommands]; exact h.opened, fun e he => ?_⟩
    · rw [sinceJoin_append, heard]
      split_ifs
      · rfl
      · exact h.own v
    · rw [hacked, sinceJoin_append, heard]
      split_ifs
      · rfl
      · exact h.acked v
    · rw [hs, hcommands]
      exact h.running (hs ▸ hrun)
    · rw [hp]
      exact h.last e (hcommands ▸ he)
  | accepted e he haccepts hseq hmonotonic =>
    subst he
    exact h.accepted haccepts hseq hmonotonic

/-- The turn of a section that ran. -/
def Turn.playbackTurn (t : Turn) : Option PlaybackTurn := t.sec.playbackTurn t.out.reply

/-- **The commands of a life.** -/
theorem RoomRun.commandsOf {guard : Turn → Prop} {s₀ : RoomState} {turns : List Turn}
    (r : RoomRun guard s₀ turns s) (h₀ : s₀.Unplayed) :
    CommandsOf (turns.filterMap Turn.playbackTurn) s := by
  induction r with
  | start => exact .start h₀
  | turn t r hg ih =>
    have hone : [t].filterMap Turn.playbackTurn = t.playbackTurn.toList := by
      cases ht : t.playbackTurn <;> simp [ht]
    rw [List.filterMap_append, hone]
    exact ih.step (Section.run_turn t.ran)

/-- **The snapshot is what the commands come to**, until the room ends. -/
lemma CommandsOf.snapshot_eq (h : CommandsOf ts s) :
    s.playbackSnapshot = if s.state = .ended then none else snapshotOf (commands ts) := by
  split_ifs with hended
  · simp [RoomState.playbackSnapshot, hended]
  have hrunning := h.running hended
  cases hlast : (commands ts).getLast? with
  | none =>
    have hnil : commands ts = [] := List.getLast?_eq_none_iff.1 hlast
    rw [hnil] at hrunning ⊢
    simp [RoomState.playbackSnapshot, hrunning, lifecycleAfter, snapshotOf]
  | some e =>
    obtain ⟨hposition, hts, hsender, hmonotonic⟩ := h.last e hlast
    have hne : commands ts ≠ [] := fun hnil => by simp [hnil] at hlast
    have hseq : s.playback.serverSeq = e.serverSeq := by
      obtain ⟨cs, hcs⟩ := List.getLast?_eq_some_iff.1 hlast
      have hseqs := h.seqs
      rw [hcs, List.map_append, List.length_append, List.map_singleton, List.length_singleton,
        List.range_succ, List.map_append, List.map_singleton] at hseqs
      have := List.append_inj' hseqs (by simp)
      rw [h.next, hcs, List.length_append, List.length_singleton]
      simpa using this.2.symm
    cases hstate : s.state with
    | «open» => exact absurd (h.opened (hrunning ▸ hstate)) hne
    | ended => exact absurd hstate hended
    | playing =>
      rw [hstate] at hrunning
      simp [RoomState.playbackSnapshot, snapshotOf, hlast, hstate, ← hrunning, hposition,
        hts, hsender, hmonotonic, hseq]
    | paused =>
      rw [hstate] at hrunning
      simp [RoomState.playbackSnapshot, snapshotOf, hlast, hstate, ← hrunning, hposition,
        hts, hsender, hmonotonic, hseq]

end Locast.Rooms
