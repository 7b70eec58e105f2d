import Locast.Client.CommandLog
import Locast.Server.RoomLogs

/-!
# A viewer of a running server

`viewer` follows any log that is numbered as a server numbers its commands.  Here the log is what a
room of a running server has accepted so far; what is on its channel of it reaches the viewer, and
so do the snapshots the room gave out.  Both may be on their way for any time, while the server goes
on.
-/

namespace Locast.Client

open Locast.Lib Locast.Protocol Locast.Rooms

/-! ### The log of a life -/

/-- **A room keeps its log over its life.** -/
theorem logged_of_run {guard : Turn → Prop} {s₀ s : RoomState} {turns : List Turn}
    (r : RoomRun guard s₀ turns s) (h₀ : s₀.Unplayed) :
    Logged s (commands (turns.filterMap Turn.playbackTurn)) := by
  induction r with
  | start => exact logged_nil h₀.playback_eq
  | turn t r hg ih =>
    have hone : commands ([t].filterMap Turn.playbackTurn) =
        (t.sec.accepted t.out.reply).toList := by
      rw [Server.accepted_eq_event, ← Turn.playbackTurn]
      cases ht : t.playbackTurn with
      | none => simp [commands, ht]
      | some turn => cases turn <;> simp [commands, ht, PlaybackTurn.event]
    rw [List.filterMap_append, commands_append, hone]
    exact ih.step (Section.run_playback t.ran)

/-! ### The fold of a log -/

/-- A room called `R` in which nothing has been played. -/
def blank (R : Uuid) : RoomState := .new R "" "" 0 (.replicate 32 0) true 0 0 0

lemma blank_unplayed (R : Uuid) : (blank R).Unplayed := ⟨rfl, rfl⟩

section Fold

variable {room : RoomState} {log more : List PlaybackAcceptedEvent} {n : ℕ}

lemma foldl_accept_state (hopen : room.state = .open) (cs : List PlaybackAcceptedEvent) :
    (cs.foldl RoomState.accept room).state = lifecycleAfter cs := by
  induction cs using List.reverseRecOn with
  | nil => exact hopen
  | append_singleton cs e ih =>
    rw [List.foldl_append, lifecycleAfter_append, ← ih]
    rfl

/-- The snapshot of the fold is what the commands come to. -/
lemma foldl_accept_snapshot (h₀ : room.Unplayed) {cs : List PlaybackAcceptedEvent}
    (hopened : lifecycleAfter cs = .open → cs = []) :
    (cs.foldl RoomState.accept room).playbackSnapshot = snapshotOf cs := by
  have hstate := foldl_accept_state h₀.state_eq cs
  cases hlast : cs.getLast? with
  | none =>
    rw [List.getLast?_eq_none_iff.1 hlast]
    simp [RoomState.playbackSnapshot, h₀.state_eq, snapshotOf]
  | some e =>
    obtain ⟨before, rfl⟩ := List.getLast?_eq_some_iff.1 hlast
    cases hlife : lifecycleAfter (before ++ [e]) with
    | «open» => exact absurd (hopened hlife) (by simp)
    | ended => exact absurd hlife (lifecycleAfter_ne_ended _)
    | playing =>
      rw [hlife] at hstate
      rw [RoomState.playbackSnapshot, hstate, snapshotOf, hlast, hlife, List.foldl_append]
      rfl
    | paused =>
      rw [hlife] at hstate
      rw [RoomState.playbackSnapshot, hstate, snapshotOf, hlast, hlife, List.foldl_append]
      rfl

lemma roomAfter_append (hn : n ≤ log.length) :
    roomAfter room (log ++ more) n = roomAfter room log n := by
  rw [roomAfter, roomAfter, List.take_append_of_le_length hn]

lemma OfLog.append {user : Uuid} {b : BufferedEvent} (h : OfLog room log user b) :
    OfLog room (log ++ more) user b := by
  obtain ⟨n, e, hn, hb⟩ := h
  exact ⟨n, e, by rw [List.getElem?_append_left (List.getElem?_eq_some_iff.1 hn).1, hn], hb⟩

/-- A viewer is as much in order when the log grows. -/
lemma Orderly.append {v : Viewer} (h : Orderly room log v) (hle : v.newest ≤ log.length) :
    Orderly room (log ++ more) v where
  inRoom := h.inRoom
  applied := h.applied
  marked := h.marked
  effect := h.effect
  delivered := h.delivered
  parked user b hb := ⟨(h.parked user b hb).1.append, (h.parked user b hb).2⟩
  newest := h.newest
  paused hlost := by
    rw [h.paused hlost, serverPaused, serverPaused, roomAfter_append (h.effect.trans hle)]
  held := h.held

end Fold

/-! ### The server and the viewer -/

/-- A command of `R` as the webview receives it. -/
def received (R : Uuid) (e : PlaybackAcceptedEvent) : PlaybackStateEvent := stateEvent (blank R) e

/-- A server that runs since its boot, the snapshots of the room `R` that are on their way, and a
viewer of the room. -/
structure Watch (env : Server.Env) (db : Db) (wallMs : Uuid → ℕ) (R : Uuid) where
  history : List Server.Step
  tasks : Server.Tasks
  run : Server.RunFrom env Server.anyStep (Server.boot db wallMs) history tasks
  shots : List PlaybackSnapshot
  viewer : Viewer

namespace Watch

variable {env : Server.Env} {db : Db} {wallMs : Uuid → ℕ} {R : Uuid} {w w' : Watch env db wallMs R}

/-- The commands accepted so far. -/
def log (w : Watch env db wallMs R) : List PlaybackAcceptedEvent := Server.acceptedIn R w.history

/-- Those on the channel. -/
def channel (w : Watch env db wallMs R) : List PlaybackAcceptedEvent :=
  Server.commandsOn R w.history

/-- The room, once there is one. -/
def room (w : Watch env db wallMs R) : Option RoomState := w.tasks.state.heap.get R

/-- The viewer has entered the room, at any time, and nothing is on its way to it. -/
structure Entered (w : Watch env db wallMs R) (ready : Bool) : Prop where
  viewer : w.viewer = .start (some R) ready
  shots : w.shots = []

/-- **What can happen next**: anything at the server, and at the viewer what meets the condition of
the viewer's own runs.  A command arrives in the order of the channel, any number of times or not at
all, and so does a snapshot in any order. -/
inductive Step (w : Watch env db wallMs R) : Watch env db wallMs R → Prop
  | serve (more : List Server.Step) (tasks : Server.Tasks)
      (run : Server.RunFrom env Server.anyStep (Server.boot db wallMs) (w.history ++ more) tasks) :
    Step w { w with history := w.history ++ more, tasks, run }
  | answer (s : RoomState) (hs : w.room = some s) :
    Step w { w with shots := w.shots ++ s.playbackSnapshot.toList }
  | deliver (n : ℕ) (e : PlaybackAcceptedEvent) (nowMs : ℤ) (he : w.channel[n]? = some e)
      (horder : w.viewer.delivered ≤ e.serverSeq) (hturn : DeliversInTurn w.viewer (received R e)) :
    Step w { w with viewer := w.viewer.deliver (received R e) nowMs }
  | seed (shot : PlaybackSnapshot) (nowMs : ℤ) (hshot : shot ∈ w.shots)
      (hturn : SeedsInTurn w.viewer R shot) :
    Step w { w with viewer := w.viewer.seed R shot nowMs }
  | tick (nowMs : ℤ) (hturn : TicksInTurn w.viewer nowMs) :
    Step w { w with viewer := { w.viewer with store := (w.viewer.store.tickDedup nowMs).2 } }
  | mediaReady (ready : Bool) :
    Step w { w with viewer := { w.viewer with store := w.viewer.store.setMediaReady ready } }
  | promote : Step w { w with viewer := { w.viewer with store := w.viewer.store.promote } }
  | markApplied (serverSeq : ℕ) :
    Step w { w with viewer := { w.viewer with store := w.viewer.store.markApplied serverSeq } }

/-! ### What every step keeps -/

/-- What the room of a running server is to the commands it has accepted. -/
structure Recorded (w : Watch env db wallMs R) : Prop where
  isLog : IsLog w.log
  opened : lifecycleAfter w.log = .open → w.log = []
  snapshot : ∀ s, w.room = some s →
    s.playbackSnapshot = if s.state = .ended then none else snapshotOf w.log
  running : ∀ s, w.room = some s → s.state ≠ .ended → s.state = lifecycleAfter w.log
  told : ∀ (n : ℕ) e, w.channel[n]? = some e → ∃ m : ℕ, w.log[m]? = some e

lemma recorded (hdb : db.Sound) (w : Watch env db wallMs R) : w.Recorded := by
  rcases Server.commands_of_boot hdb wallMs w.run R with
    ⟨hchannel, hturns, -, hroom⟩ | ⟨s₀, s, turns, h₀, hroom, hrun, hturns, hlog⟩
  · have hnil : w.log = [] := by rw [log, Server.acceptedIn, hturns]; rfl
    have hempty : w.channel = [] := hchannel
    have hnone (s : RoomState) (hs : w.room = some s) : False := by
      rw [room, hroom] at hs
      cases hs
    refine ⟨?_, fun _ => hnil, fun s hs => (hnone s hs).elim, fun s hs => (hnone s hs).elim,
      fun n e he => ?_⟩
    · rw [hnil]
      exact ⟨fun n e he => (by cases he), fun n e he => (by cases he)⟩
    · rw [hempty] at he
      cases he
  · have hI := hrun.commandsOf h₀
    have hisLog := (logged_of_run hrun h₀).isLog
    rw [← hturns] at hI hisLog
    have hone (s' : RoomState) (hs' : w.room = some s') : s = s' :=
      Option.some.inj (hroom.symm.trans hs')
    refine ⟨hisLog, hI.opened, fun s' hs' => ?_, fun s' hs' hrunning => ?_, fun n e he => ?_⟩
    · rw [← hone s' hs', hI.snapshot_eq]
      rfl
    · rw [← hone s' hs'] at hrunning ⊢
      exact hI.running hrunning
    · have hw : w.log = Server.acceptedIn R (Server.untold R w.history) ++ w.channel := hlog
      refine ⟨(Server.acceptedIn R (Server.untold R w.history)).length + n, ?_⟩
      rw [hw, List.getElem?_append_right (Nat.le_add_right _ _), Nat.add_sub_cancel_left, he]

/-- What holds of the two after every step. -/
structure Kept (w : Watch env db wallMs R) : Prop where
  orderly : Orderly (blank R) w.log w.viewer
  newest : w.viewer.newest ≤ w.log.length
  shots : ∀ shot ∈ w.shots, ∃ n ≤ w.log.length,
    (roomAfter (blank R) w.log n).playbackSnapshot = some shot

lemma Entered.kept {ready : Bool} (h : w.Entered ready) : w.Kept := by
  refine ⟨?_, ?_, fun shot hshot => ?_⟩
  · rw [h.viewer]
    exact orderly_start rfl (fun r hr => (Option.some.inj hr).symm) ready
  · rw [h.viewer]
    exact Nat.zero_le _
  · rw [h.shots] at hshot
    cases hshot

/-- The snapshot a room gives is as of all commands it has accepted. -/
lemma snapshot_now (hdb : db.Sound) {s : RoomState} (hs : w.room = some s) {shot : PlaybackSnapshot}
    (hshot : s.playbackSnapshot = some shot) :
    (roomAfter (blank R) w.log w.log.length).playbackSnapshot = some shot := by
  have hrec := recorded hdb w
  rw [hrec.snapshot s hs] at hshot
  rw [roomAfter, List.take_length, foldl_accept_snapshot (blank_unplayed R) hrec.opened]
  split at hshot
  · cases hshot
  · exact hshot

/-- **One step**: the viewer stays in order, and the command in effect does not go back. -/
theorem Kept.step (hdb : db.Sound) (h : w.Kept) (hs : w.Step w') :
    w'.Kept ∧ w.viewer.store.effectSeq ≤ w'.viewer.store.effectSeq := by
  have hlog := (recorded hdb w).isLog
  cases hs with
  | serve more tasks run =>
    have hgrown : Server.acceptedIn R (w.history ++ more) = w.log ++ Server.acceptedIn R more :=
      Server.acceptedIn_append w.history more
    refine ⟨⟨?_, ?_, fun shot hshot => ?_⟩, le_rfl⟩
    · rw [log, hgrown]
      exact h.orderly.append h.newest
    · rw [log, hgrown, List.length_append]
      exact h.newest.trans (Nat.le_add_right _ _)
    · obtain ⟨n, hn, hsnapshot⟩ := h.shots shot hshot
      refine ⟨n, ?_, ?_⟩
      · rw [log, hgrown, List.length_append]
        exact hn.trans (Nat.le_add_right _ _)
      · rw [log, hgrown, roomAfter_append hn, hsnapshot]
  | answer s hs =>
    refine ⟨⟨h.orderly, h.newest, fun shot hshot => ?_⟩, le_rfl⟩
    rcases List.mem_append.1 hshot with hold | hnew
    · exact h.shots shot hold
    · exact ⟨w.log.length, le_rfl, snapshot_now hdb hs (Option.mem_toList.1 hnew)⟩
  | deliver n' e nowMs he horder hturn =>
    obtain ⟨n, he⟩ := (recorded hdb w).told n' e he
    obtain ⟨horderly, hle⟩ := h.orderly.deliver hlog he horder nowMs hturn
    refine ⟨⟨horderly, max_le h.newest ?_, h.shots⟩, hle⟩
    have hn := (List.getElem?_eq_some_iff.1 he).1
    have hseq : (received R e).serverSeq = n + 1 := hlog.serverSeq n e he
    rw [hseq]
    exact hn
  | seed shot nowMs hshot hturn =>
    obtain ⟨n, -, hsnapshot⟩ := h.shots shot hshot
    obtain ⟨hreal, hpaused⟩ := snapshot_of_log hlog rfl hsnapshot
    obtain ⟨horderly, hle⟩ := h.orderly.seed nowMs hpaused hturn
    refine ⟨⟨horderly, ?_, h.shots⟩, hle⟩
    simp only [Viewer.seed]
    split
    · exact max_le h.newest hreal
    · exact h.newest
  | tick nowMs hturn =>
    obtain ⟨horderly, hle⟩ := h.orderly.tick hlog nowMs hturn
    exact ⟨⟨horderly, h.newest, h.shots⟩, hle⟩
  | mediaReady ready =>
    have hkeep : Orderly (blank R) w.log
        { w.viewer with store := w.viewer.store.setMediaReady ready } ∧ _ :=
      h.orderly.keep rfl rfl rfl rfl h.orderly.applied h.orderly.marked
    exact ⟨⟨hkeep.1, h.newest, h.shots⟩, hkeep.2⟩
  | promote =>
    obtain ⟨horderly, hle⟩ := h.orderly.promote
    exact ⟨⟨horderly, h.newest, h.shots⟩, hle⟩
  | markApplied serverSeq =>
    obtain ⟨horderly, hle⟩ := h.orderly.markApplied serverSeq
    exact ⟨⟨horderly, h.newest, h.shots⟩, hle⟩

/-- **A run** of the two. -/
lemma Kept.run (hdb : db.Sound) (h : w.Kept) (r : Relation.ReflTransGen Step w w') :
    w'.Kept ∧ w.viewer.store.effectSeq ≤ w'.viewer.store.effectSeq := by
  induction r with
  | refl => exact ⟨h, le_rfl⟩
  | tail _ hs ih =>
    obtain ⟨hkept, hle⟩ := ih.1.step hdb hs
    exact ⟨hkept, ih.2.trans hle⟩

end Watch

/-- **What a viewer makes of a running server**, between two moments of its stay. -/
structure Follows {env : Server.Env} {db : Db} {wallMs : Uuid → ℕ} {R : Uuid}
    (w w' : Watch env db wallMs R) : Prop where
  /-- The command in effect never goes back. -/
  onward : w.viewer.store.effectSeq ≤ w'.viewer.store.effectSeq
  /-- It is one that the server has accepted. -/
  accepted : w'.viewer.store.effectSeq ≤ w'.log.length
  /-- Once nothing is parked it is the newest one delivered or seeded. -/
  newest : parkedEvents w'.viewer.store.dedupState = [] →
    w'.viewer.store.effectSeq = w'.viewer.newest
  /-- If nothing was lost the play state is what the commands up to it come to. -/
  paused : w'.viewer.lost = false → w'.viewer.store.hostPaused =
    decide (lifecycleAfter (w'.log.take w'.viewer.store.effectSeq) = .paused)
  /-- A viewer that has caught up shows what the room is doing, until the room ends. -/
  caughtUp : w'.viewer.lost = false → w'.viewer.store.effectSeq = w'.log.length →
    ∀ s, w'.room = some s → s.state ≠ .ended →
      w'.viewer.store.hostPaused = decide (s.state = .paused)

namespace Watching

def played : PlaybackAcceptedEvent where
  senderId := 1
  action := .play
  monotonicSeq := 1
  mediaPositionMs := 0
  clientTsMs := 0
  serverSeq := 1
  serverTsMs := 0

def paused : PlaybackAcceptedEvent :=
  { played with action := .pause, monotonicSeq := 2, serverSeq := 2 }

/-- The viewer enters, its media ready. -/
def entering : Viewer := .start (some 1) true

def playing : Viewer := entering.deliver (received 1 played) 0

/-- A newer command is in turn when nothing is parked and nothing waits to be promoted. -/
lemma inTurn {v : Viewer} {e : PlaybackStateEvent} (hnew : v.newest < e.serverSeq)
    (hadmits : refuses (v.store.dedupState.get e.senderId) e.monotonicSeq = false)
    (hpromoted : v.store.unpromoted = false)
    (hslot : (v.store.dedupState.get e.senderId).bind (·.pending) = none)
    (hparked : parkedEvents v.store.dedupState = []) : DeliversInTurn v e := by
  intro _
  refine ⟨fun _ => hadmits, fun _ => ⟨hnew, hpromoted⟩, fun _ _ _ => ⟨hslot, fun _ p hp => ?_⟩⟩
  rw [hparked] at hp
  cases hp

end Watching

end Locast.Client
