import Locast.Client.PlaybackStore
import Locast.Lib.Machine
import Locast.Rooms.Playback

/-!
# A viewer follows the server's log

The server numbers the commands it accepts; a viewer gets some of them, in that order, and snapshots
of the room as of any point.  The command in effect never goes back, catches up once nothing is
parked, and has the server's play state if nothing was lost, in every run in which no command that
took effect is overtaken by an older one and no newer one is refused.
-/

namespace Locast.Client

open Locast.Lib Locast.Protocol Locast.Rooms

/-! ### The server's log -/

/-- The server's log of accepted commands: numbered in the room, and consecutively for each sender,
who starts again at one after it rejoined. -/
structure IsLog (log : List PlaybackAcceptedEvent) : Prop where
  serverSeq : ∀ n e, log[n]? = some e → e.serverSeq = n + 1
  monotonicSeq : ∀ n e, log[n]? = some e → e.monotonicSeq = 1 ∨
    ∃ before, (log.take n).reverse.find? (·.senderId = e.senderId) = some before ∧
      e.monotonicSeq = before.monotonicSeq + 1

/-- The room after the first `n` commands of its log. -/
def roomAfter (room : RoomState) (log : List PlaybackAcceptedEvent) (n : ℕ) : RoomState :=
  (log.take n).foldl RoomState.accept room

/-- The server's paused flag as of the command with this number. -/
def serverPaused (room : RoomState) (log : List PlaybackAcceptedEvent) (n : ℕ) : Bool :=
  (roomAfter room log n).state = .paused

/-- A command of the log as the webview receives it. -/
def stateEvent (room : RoomState) (e : PlaybackAcceptedEvent) : PlaybackStateEvent where
  roomId := room.id
  serverSeq := e.serverSeq
  serverTsMs := e.serverTsMs
  senderId := e.senderId
  monotonicSeq := e.monotonicSeq
  kind := e.action
  mediaPositionMs := e.mediaPositionMs

section Log

variable {room : RoomState} {log : List PlaybackAcceptedEvent} {n : ℕ} {e : PlaybackAcceptedEvent}

lemma roomAfter_succ (h : log[n]? = some e) :
    roomAfter room log (n + 1) = (roomAfter room log n).accept e := by
  rw [roomAfter, List.take_add_one, h, List.foldl_append]
  rfl

lemma serverPaused_zero (hopen : room.state = .open) : serverPaused room log 0 = false := by
  simp [serverPaused, roomAfter, hopen]

/-- A command changes the server's paused flag as it changes the viewer's. -/
lemma serverPaused_succ (h : log[n]? = some e) :
    serverPaused room log (n + 1) = nextHostPaused (serverPaused room log n) e.action := by
  rw [serverPaused, roomAfter_succ h]
  rcases ha : e.action <;>
    simp [RoomState.accept, RoomLifecycle.after, nextHostPaused, serverPaused, ha]

/-- The snapshot after a command is as of that command. -/
lemma snapshot_succ (hlog : IsLog log) (h : log[n]? = some e) {shot : PlaybackSnapshot}
    (hshot : (roomAfter room log (n + 1)).playbackSnapshot = some shot) :
    shot.serverSeq = n + 1 ∧ shot.paused = serverPaused room log (n + 1) := by
  have hseq := hlog.serverSeq n e h
  rw [serverPaused]
  rw [roomAfter_succ h] at hshot ⊢
  rcases hs : ((roomAfter room log n).accept e).state <;>
    simp only [RoomState.playbackSnapshot, hs, reduceCtorEq, Option.map_eq_some_iff] at hshot
  all_goals
    obtain ⟨_, -, rfl⟩ := hshot
    simp [RoomState.accept, hseq]

/-- A snapshot is as of some command of the log. -/
lemma snapshot_of_log (hlog : IsLog log) (hopen : room.state = .open) {shot : PlaybackSnapshot}
    (h : (roomAfter room log n).playbackSnapshot = some shot) :
    shot.serverSeq ≤ log.length ∧ shot.paused = serverPaused room log shot.serverSeq := by
  have hmin : roomAfter room log n = roomAfter room log (min n log.length) := by
    rw [roomAfter, roomAfter, ← List.take_eq_take_min]
  rw [hmin] at h
  have hle : min n log.length ≤ log.length := min_le_right _ _
  rcases hm : min n log.length with _ | m
  · rw [hm] at h
    simp [roomAfter, RoomState.playbackSnapshot, hopen] at h
  · rw [hm] at h hle
    obtain ⟨hseq, hpaused⟩ := snapshot_succ hlog (List.getElem?_eq_getElem (by omega)) h
    rw [hseq]
    exact ⟨hle, hpaused⟩

end Log

/-! ### The viewer -/

/-- A viewer's store, the number of the last command delivered, whether a command before it was
never delivered, and the highest number delivered or seeded. -/
structure Viewer where
  store : PlaybackStore
  delivered : ℕ
  lost : Bool
  newest : ℕ
  deriving DecidableEq

inductive ViewerInput where
  /-- The command at this place of the log arrives. -/
  | deliver (n : ℕ) (nowMs : ℤ)
  /-- The snapshot as of the first `n` commands arrives. -/
  | seed (n : ℕ) (nowMs : ℤ)
  | tick (nowMs : ℤ)
  | mediaReady (ready : Bool)
  | promote
  | markApplied (serverSeq : ℕ)

namespace Viewer

/-- A viewer that has entered the room. -/
def start (roomId : Option Uuid) (mediaReady : Bool) : Viewer :=
  ⟨.initial roomId mediaReady, 0, false, 0⟩

def deliver (e : PlaybackStateEvent) (nowMs : ℤ) (v : Viewer) : Viewer where
  store := (v.store.acceptEvent e nowMs).2
  delivered := e.serverSeq
  lost := v.lost || decide (v.delivered + 1 < e.serverSeq)
  newest := max v.newest e.serverSeq

def seed (roomId : Uuid) (shot : PlaybackSnapshot) (nowMs : ℤ) (v : Viewer) : Viewer :=
  let out := v.store.seedFromSnapshot roomId shot nowMs
  { v with store := out.2, newest := if out.1 then max v.newest shot.serverSeq else v.newest }

end Viewer

/-- A viewer of this log: commands arrive in the server's order, each any number of times or not at
all, and snapshots as of any point. -/
def viewer (room : RoomState) (log : List PlaybackAcceptedEvent) : Machine Viewer ViewerInput
  | v, .deliver n nowMs =>
    (log[n]?).bind fun e =>
      if e.serverSeq < v.delivered then none else some (v.deliver (stateEvent room e) nowMs)
  | v, .seed n nowMs => (roomAfter room log n).playbackSnapshot.map (v.seed room.id · nowMs)
  | v, .tick nowMs => some { v with store := (v.store.tickDedup nowMs).2 }
  | v, .mediaReady ready => some { v with store := v.store.setMediaReady ready }
  | v, .promote => some { v with store := v.store.promote }
  | v, .markApplied serverSeq => some { v with store := v.store.markApplied serverSeq }

/-! ### The condition -/

/-- The media is ready and an event parked for it was not promoted yet. -/
def PlaybackStore.unpromoted (s : PlaybackStore) : Bool := s.mediaReady && s.pending.isSome

/-- The condition on a delivery that the room's order lets through: the sender's record refuses no
command newer than all before and takes no other, nothing waits to be promoted when a command takes
effect, and, as long as nothing was lost, nothing newer than the command in effect is parked when a
command takes effect, nor anything of the sender when a newer command arrives. -/
def DeliversInTurn (v : Viewer) (e : PlaybackStateEvent) : Prop :=
  let sender := v.store.dedupState.get e.senderId
  v.store.lastAppliedServerSeq < e.serverSeq →
    (v.newest < e.serverSeq → refuses sender e.monotonicSeq = false) ∧
    (takes sender e.monotonicSeq = true →
      v.newest < e.serverSeq ∧ v.store.unpromoted = false) ∧
    (v.lost = false → e.serverSeq ≤ v.delivered + 1 → v.newest < e.serverSeq →
      sender.bind (·.pending) = none ∧
      (takes sender e.monotonicSeq = true →
        ∀ p ∈ parkedEvents v.store.dedupState, p.serverSeq ≤ v.store.effectSeq))

/-- The condition on a snapshot that the store applies: it is not older than the command in effect,
and nothing waits to be promoted. -/
def SeedsInTurn (v : Viewer) (roomId : Uuid) (shot : PlaybackSnapshot) : Prop :=
  v.store.seeds roomId shot = true →
    v.store.effectSeq ≤ shot.serverSeq ∧ v.store.unpromoted = false

/-- The condition on a tick that finds parked events timed out: one of them is not older than the
command in effect, nothing waits to be promoted, and, as long as nothing was lost, they are all
newer than the command in effect and leave no event parked between. -/
def TicksInTurn (v : Viewer) (nowMs : ℤ) : Prop :=
  let expired := timedOut v.store.dedupState nowMs
  expired ≠ [] →
    (∃ e ∈ expired, v.store.effectSeq ≤ e.serverSeq) ∧ v.store.unpromoted = false ∧
    (v.lost = false → ∀ e ∈ expired, v.store.effectSeq < e.serverSeq ∧
      ∀ p ∈ parkedEvents v.store.dedupState,
        v.store.effectSeq < p.serverSeq → p.serverSeq < e.serverSeq → p ∈ expired)

/-- The condition on a step of a viewer. -/
def InTurn (room : RoomState) (log : List PlaybackAcceptedEvent) (v : Viewer) : ViewerInput → Prop
  | .deliver n _ => ∀ e, log[n]? = some e → DeliversInTurn v (stateEvent room e)
  | .seed n _ => ∀ shot, (roomAfter room log n).playbackSnapshot = some shot →
    SeedsInTurn v room.id shot
  | .tick nowMs => TicksInTurn v nowMs
  | .mediaReady _ | .promote | .markApplied _ => True

instance (v : Viewer) (e : PlaybackStateEvent) : Decidable (DeliversInTurn v e) :=
  inferInstanceAs (Decidable (_ → _ ∧ _ ∧ _))

instance (v : Viewer) (nowMs : ℤ) : Decidable (TicksInTurn v nowMs) :=
  inferInstanceAs (Decidable (_ → _ ∧ _ ∧ _))

instance (v : Viewer) (roomId : Uuid) (shot : PlaybackSnapshot) :
    Decidable (SeedsInTurn v roomId shot) :=
  inferInstanceAs (Decidable (_ → _))

instance (room : RoomState) (log : List PlaybackAcceptedEvent) (v : Viewer) (i : ViewerInput) :
    Decidable (InTurn room log v i) :=
  match i with
  | .deliver n _ =>
    inferInstanceAs (Decidable (∀ e ∈ log[n]?, DeliversInTurn v (stateEvent room e)))
  | .seed n _ => inferInstanceAs
    (Decidable (∀ shot ∈ (roomAfter room log n).playbackSnapshot, SeedsInTurn v room.id shot))
  | .tick nowMs => inferInstanceAs (Decidable (TicksInTurn v nowMs))
  | .mediaReady _ | .promote | .markApplied _ => isTrue trivial

/-! ### What every step keeps -/

/-- The parked event is a command of the log, under its sender and its number. -/
def OfLog (room : RoomState) (log : List PlaybackAcceptedEvent) (user : Uuid) (b : BufferedEvent) :
    Prop :=
  ∃ (n : ℕ) (e : PlaybackAcceptedEvent), log[n]? = some e ∧ b.event = stateEvent room e ∧
    b.seq = e.monotonicSeq ∧ user = e.senderId

/-- What holds of a viewer after every step. -/
structure Orderly (room : RoomState) (log : List PlaybackAcceptedEvent) (v : Viewer) : Prop where
  inRoom : v.store.roomId.any (· ≠ room.id) = false
  applied : v.store.appliedSeq ≤ v.store.effectSeq
  marked : v.store.lastAppliedServerSeq ≤ v.store.effectSeq
  effect : v.store.effectSeq ≤ v.newest
  delivered : v.delivered ≤ v.newest
  parked : ∀ user b, Parked v.store.dedupState user b →
    OfLog room log user b ∧ b.event.serverSeq ≤ v.delivered
  newest : v.store.effectSeq = v.newest ∨
    ∃ user b, Parked v.store.dedupState user b ∧ b.event.serverSeq = v.newest
  paused : v.lost = false → v.store.hostPaused = serverPaused room log v.store.effectSeq
  held : v.lost = false → ∀ n, v.store.effectSeq < n → n ≤ v.delivered →
    ∃ user b, Parked v.store.dedupState user b ∧ b.event.serverSeq = n

section Steps

variable {room : RoomState} {log : List PlaybackAcceptedEvent} {v : Viewer}

/-- Two parked events of one number are the same. -/
lemma OfLog.unique (hlog : IsLog log) {user user' : Uuid} {b b' : BufferedEvent}
    (h : OfLog room log user b) (h' : OfLog room log user' b')
    (heq : b.event.serverSeq = b'.event.serverSeq) :
    user = user' ∧ b.event = b'.event ∧ b.seq = b'.seq := by
  obtain ⟨n, e, hn, hb, hs, hu⟩ := h
  obtain ⟨n', e', hn', hb', hs', hu'⟩ := h'
  have hseq := hlog.serverSeq n e hn
  have hseq' := hlog.serverSeq n' e' hn'
  have hnn : n = n' := by
    rw [hb, hb'] at heq
    have heq : e.serverSeq = e'.serverSeq := heq
    omega
  subst hnn
  rw [hn] at hn'
  cases hn'
  exact ⟨hu.trans hu'.symm, hb.trans hb'.symm, hs.trans hs'.symm⟩

namespace PlaybackStore

variable {s : PlaybackStore} (e : PlaybackStateEvent) (nowMs : ℤ)

@[simp] lemma put_hostPaused : (s.put e nowMs).hostPaused = s.hostPaused := by
  unfold put
  split <;> rfl

@[simp] lemma put_lastAppliedServerSeq :
    (s.put e nowMs).lastAppliedServerSeq = s.lastAppliedServerSeq := by
  unfold put
  split <;> rfl

/-- What is put into effect is in effect. -/
lemma put_effectSeq (h : s.unpromoted = false) : (s.put e nowMs).effectSeq = e.serverSeq := by
  rcases hp : s.pending with _ | p
  · by_cases hr : s.mediaReady <;> simp [put, effectSeq, inEffect, hr, hp]
  · have hr : s.mediaReady = false := by simpa [unpromoted, hp] using h
    simp [put, effectSeq, inEffect, hr]

lemma put_appliedSeq (h : s.appliedSeq ≤ e.serverSeq) :
    (s.put e nowMs).appliedSeq ≤ e.serverSeq := by
  by_cases hr : s.mediaReady
  · simp [put, hr, appliedSeq]
  · rw [put, if_neg hr]
    exact h

end PlaybackStore

/-- A command that takes effect keeps the order if it is not older than the one in effect, and the
parked events and the play state fit it. -/
lemma Orderly.takeEffect (h : Orderly room log v) (hprom : v.store.unpromoted = false)
    (x : PlaybackStateEvent) (nowMs : ℤ) (state : DedupState) (hostPaused : Bool)
    {delivered newest : ℕ} {lost : Bool} (hle : v.store.effectSeq ≤ x.serverSeq)
    (hx : x.serverSeq ≤ newest) (hdel : delivered ≤ newest)
    (hparked : ∀ user b, Parked state user b →
      OfLog room log user b ∧ b.event.serverSeq ≤ delivered)
    (htop : x.serverSeq = newest ∨ ∃ user b, Parked state user b ∧ b.event.serverSeq = newest)
    (hpaused : lost = false → hostPaused = serverPaused room log x.serverSeq)
    (hheld : lost = false → ∀ n, x.serverSeq < n → n ≤ delivered →
      ∃ user b, Parked state user b ∧ b.event.serverSeq = n) :
    let store := { v.store with dedupState := state, hostPaused }.put x nowMs
    Orderly room log ⟨store, delivered, lost, newest⟩ ∧ v.store.effectSeq ≤ store.effectSeq := by
  intro store
  have heff : store.effectSeq = x.serverSeq := PlaybackStore.put_effectSeq x nowMs hprom
  refine ⟨⟨?_, ?_, ?_, ?_, hdel, ?_, ?_, ?_, ?_⟩, hle.trans heff.ge⟩
  · simpa [store] using h.inRoom
  · rw [heff]
    exact PlaybackStore.put_appliedSeq x nowMs (h.applied.trans hle)
  · rw [heff]
    simpa [store] using h.marked.trans hle
  · exact heff.trans_le hx
  · simpa [store] using hparked
  · rw [heff]
    simpa [store] using htop
  · rw [heff]
    simpa [store] using hpaused
  · rw [heff]
    simpa [store] using hheld

/-! ### Deliveries -/

/-- Nothing was lost up to a delivery, so nothing was before it, and it is the next one at most. -/
lemma lost_of_deliver {n : ℕ} (h : (v.lost || decide (v.delivered + 1 < n)) = false) :
    v.lost = false ∧ n ≤ v.delivered + 1 := by
  simpa using h

/-- A command that is not newer than all before and changes nothing keeps the order. -/
lemma Orderly.deliver_old (h : Orderly room log v) {e : PlaybackStateEvent}
    (horder : v.delivered ≤ e.serverSeq) (hold : e.serverSeq ≤ v.newest) :
    Orderly room log ⟨v.store, e.serverSeq, v.lost || decide (v.delivered + 1 < e.serverSeq),
      max v.newest e.serverSeq⟩ := by
  rw [max_eq_left hold]
  refine ⟨h.inRoom, h.applied, h.marked, h.effect, hold, ?_, h.newest, ?_, ?_⟩
  · intro user b hb
    exact ⟨(h.parked user b hb).1, (h.parked user b hb).2.trans horder⟩
  · intro hlost
    exact h.paused (lost_of_deliver hlost).1
  · intro hlost n hn hle
    obtain ⟨hlost, hnext⟩ := lost_of_deliver hlost
    have hn : v.store.effectSeq < n := hn
    have hle : n ≤ e.serverSeq := hle
    refine h.held hlost n hn ?_
    -- the command itself is not newer than what is in effect or parked
    rcases h.newest with heq | ⟨user, b, hb, heq⟩
    · have := h.effect
      omega
    · have := (h.parked user b hb).2
      omega

/-- A command that is parked keeps the order. -/
lemma Orderly.deliver_parked (hlog : IsLog log) (h : Orderly room log v) {n : ℕ}
    {e : PlaybackAcceptedEvent} (hn : log[n]? = some e) (horder : v.delivered ≤ e.serverSeq)
    (last : ℕ) (nowMs : ℤ)
    (hslot : ∀ b, Parked v.store.dedupState e.senderId b → b.seq < e.monotonicSeq)
    (hempty : v.lost = false → e.serverSeq ≤ v.delivered + 1 → v.newest < e.serverSeq →
      ∀ b, ¬Parked v.store.dedupState e.senderId b) :
    Orderly room log
      ⟨{ v.store with
          dedupState := (v.store.dedupState.insert e.senderId
            ⟨last, some ⟨stateEvent room e, nowMs, e.monotonicSeq⟩⟩) },
        e.serverSeq, v.lost || decide (v.delivered + 1 < e.serverSeq),
          max v.newest e.serverSeq⟩ := by
  set b₀ : BufferedEvent := ⟨stateEvent room e, nowMs, e.monotonicSeq⟩ with hb₀
  set state := v.store.dedupState.insert e.senderId ⟨last, some b₀⟩ with hstate
  have hlog₀ : OfLog room log e.senderId b₀ := ⟨n, e, hn, rfl, rfl, rfl⟩
  have hpark₀ : Parked state e.senderId b₀ := by
    rw [hstate, parked_insert, if_pos rfl]
  -- the slot of the sender holds nothing of this number yet
  have hnew : ∀ user b, Parked v.store.dedupState user b → b.event.serverSeq = e.serverSeq →
      user ≠ e.senderId := by
    rintro user b hb heq rfl
    have hlt := hslot b hb
    have := ((h.parked _ b hb).1.unique hlog hlog₀ heq).2.2
    simp only [hb₀] at this
    omega
  refine ⟨h.inRoom, h.applied, h.marked, h.effect.trans (le_max_left _ _), le_max_right _ _, ?_, ?_,
    ?_, ?_⟩
  · intro user b hb
    rw [parked_insert] at hb
    by_cases hu : user = e.senderId
    · rw [if_pos hu] at hb
      cases hb
      exact ⟨hu ▸ hlog₀, le_rfl⟩
    · rw [if_neg hu] at hb
      exact ⟨(h.parked user b hb).1, (h.parked user b hb).2.trans horder⟩
  · by_cases hfresh : v.newest < e.serverSeq
    · exact .inr ⟨e.senderId, b₀, hpark₀, (max_eq_right hfresh.le).symm⟩
    · rw [not_lt] at hfresh
      rw [max_eq_left hfresh]
      refine h.newest.imp id ?_
      rintro ⟨user, b, hb, heq⟩
      have hle := (h.parked user b hb).2
      refine ⟨user, b, parked_insert_other hb (hnew user b hb ?_), heq⟩
      omega
  · intro hlost
    exact h.paused (lost_of_deliver hlost).1
  · intro hlost m hm hle
    obtain ⟨hlost, hnext⟩ := lost_of_deliver hlost
    have hm : v.store.effectSeq < m := hm
    have hle : m ≤ e.serverSeq := hle
    by_cases hme : m = e.serverSeq
    · exact ⟨e.senderId, b₀, hpark₀, hme.symm⟩
    have hmd : m ≤ v.delivered := by omega
    obtain ⟨user, b, hb, heq⟩ := h.held hlost m hm hmd
    refine ⟨user, b, parked_insert_other hb ?_, heq⟩
    by_cases hfresh : v.newest < e.serverSeq
    · rintro rfl
      exact hempty hlost hnext hfresh b hb
    · rintro rfl
      -- the newest command is this one, and parked in the same slot
      have hd := h.delivered
      have heff := h.effect
      rcases h.newest with htop | ⟨user', b', hb', htop⟩
      · omega
      · have hle' := (h.parked user' b' hb').2
        have huser := hnew user' b' hb' (by omega)
        have :=
          ((h.parked user' b' hb').1.unique hlog hlog₀ (by simp only [hb₀, stateEvent]; omega)).1
        exact huser this

/-- A newer command that takes effect, perhaps with an older parked one, keeps the order. -/
lemma Orderly.deliver_applied (hlog : IsLog log) (h : Orderly room log v) {n : ℕ}
    {e : PlaybackAcceptedEvent} (hn : log[n]? = some e) (last : ℕ) (nowMs : ℤ)
    (hfresh : v.newest < e.serverSeq) (hprom : v.store.unpromoted = false)
    {x : PlaybackStateEvent} (hx : x.serverSeq = e.serverSeq) {hostPaused : Bool}
    (hpaused : v.lost = false → e.serverSeq ≤ v.delivered + 1 →
      hostPaused = nextHostPaused v.store.hostPaused e.action ∧
        ∀ p ∈ parkedEvents v.store.dedupState, p.serverSeq ≤ v.store.effectSeq) :
    let store := { v.store with
      dedupState := v.store.dedupState.insert e.senderId ⟨last, none⟩, hostPaused }.put x nowMs
    Orderly room log
      ⟨store, e.serverSeq, v.lost || decide (v.delivered + 1 < e.serverSeq),
        max v.newest e.serverSeq⟩ ∧ v.store.effectSeq ≤ store.effectSeq := by
  have heff := h.effect
  have hd := h.delivered
  refine h.takeEffect hprom x nowMs _ _ (by omega) (by omega) (le_max_right _ _) ?_ (.inl ?_) ?_ ?_
  · intro user b hb
    rw [parked_insert] at hb
    by_cases hu : user = e.senderId
    · simp [hu] at hb
    · rw [if_neg hu] at hb
      exact ⟨(h.parked user b hb).1, (h.parked user b hb).2.trans (by omega)⟩
  · rw [hx, max_eq_right hfresh.le]
  · intro hlost
    obtain ⟨hlost, hnext⟩ := lost_of_deliver hlost
    obtain ⟨hp, hnone⟩ := hpaused hlost hnext
    -- everything delivered before is in effect, so this is the next command of the log
    have hlast : v.delivered ≤ v.store.effectSeq := by
      by_contra hlt
      obtain ⟨user, b, hb, heq⟩ := h.held hlost v.delivered (by omega) le_rfl
      have := hnone b.event (mem_parkedEvents.mpr ⟨user, b, hb, rfl⟩)
      omega
    have hseq := hlog.serverSeq n e hn
    have hn' : v.store.effectSeq = n := by omega
    rw [hp, h.paused hlost, hn', hx, hseq, serverPaused_succ hn]
  · intro _ m hm hle
    omega

lemma not_parked_of_slot {state : DedupState} {user : Uuid}
    (h : (state.get user).bind (·.pending) = none) (b : BufferedEvent) : ¬Parked state user b := by
  intro hb
  rw [bind_pending.mpr hb] at h
  cases h

/-- **Deliveries.** A delivery in turn keeps the order and takes nothing back. -/
lemma Orderly.deliver (hlog : IsLog log) (h : Orderly room log v) {n : ℕ}
    {e : PlaybackAcceptedEvent} (hn : log[n]? = some e) (horder : v.delivered ≤ e.serverSeq)
    (nowMs : ℤ) (hg : DeliversInTurn v (stateEvent room e)) :
    Orderly room log (v.deliver (stateEvent room e) nowMs) ∧
      v.store.effectSeq ≤ (v.deliver (stateEvent room e) nowMs).store.effectSeq := by
  by_cases hmark : e.serverSeq ≤ v.store.lastAppliedServerSeq
  · have hmark' : (stateEvent room e).serverSeq ≤ v.store.lastAppliedServerSeq := hmark
    have hstore : (v.store.acceptEvent (stateEvent room e) nowMs).2 = v.store := by
      rw [PlaybackStore.acceptEvent, if_pos hmark', ite_self]
    rw [Viewer.deliver, hstore]
    exact ⟨h.deliver_old horder (hmark.trans (h.marked.trans h.effect)), le_rfl⟩
  rw [not_le] at hmark
  obtain ⟨hlate, htake, hclean⟩ := hg hmark
  unfold Viewer.deliver
  rcases v.store.acceptEvent_cases (stateEvent room e) nowMs h.inRoom hmark with
    ⟨href, hstore⟩ | ⟨htakes, last, hostPaused, x, hstore, hx, hp⟩ | ⟨-, ⟨last, hstore⟩, hlt⟩
  · have hold : e.serverSeq ≤ v.newest := by
      by_contra hfresh
      rw [hlate (not_le.mp hfresh)] at href
      cases href
    rw [hstore]
    exact ⟨h.deliver_old horder hold, le_rfl⟩
  · obtain ⟨hfresh, hprom⟩ := htake htakes
    have hxe : x.serverSeq = e.serverSeq := by
      rcases hx with hx | ⟨b, hb, hx⟩
      · exact hx
      · have hle := (h.parked _ b hb).2
        have hd := h.delivered
        have hfresh : v.newest < e.serverSeq := hfresh
        have hmax : x.serverSeq = max e.serverSeq b.event.serverSeq := hx
        omega
    rw [hstore]
    refine h.deliver_applied hlog hn last nowMs hfresh hprom hxe ?_
    intro hlost hnext
    obtain ⟨hslot, hnone⟩ := hclean hlost hnext hfresh
    exact ⟨hp (not_parked_of_slot hslot), hnone htakes⟩
  · rw [hstore]
    refine ⟨h.deliver_parked hlog hn horder last nowMs hlt ?_, le_rfl⟩
    intro hlost hnext hfresh
    exact not_parked_of_slot (hclean hlost hnext hfresh).1

/-! ### Snapshots and ticks -/

/-- **Snapshots.** A snapshot in turn keeps the order and takes nothing back. -/
lemma Orderly.seed (h : Orderly room log v) {shot : PlaybackSnapshot} (nowMs : ℤ)
    (hpaused : shot.paused = serverPaused room log shot.serverSeq)
    (hg : SeedsInTurn v room.id shot) :
    Orderly room log (v.seed room.id shot nowMs) ∧
      v.store.effectSeq ≤ (v.seed room.id shot nowMs).store.effectSeq := by
  by_cases hseeds : v.store.seeds room.id shot = true
  swap
  · have hout : v.store.seedFromSnapshot room.id shot nowMs = (false, v.store) := by
      rw [PlaybackStore.seedFromSnapshot, if_neg hseeds]
    simp only [Viewer.seed, hout]
    exact ⟨h, le_rfl⟩
  obtain ⟨hle, hprom⟩ := hg hseeds
  have hslot : (v.store.dedupState.get shot.senderId).bind (·.pending) = none := by
    simp only [PlaybackStore.seeds, Bool.and_eq_true] at hseeds
    rcases hget : v.store.dedupState.get shot.senderId with _ | d
    · rfl
    · simpa [hget] using hseeds.2
  have hother : ∀ user b, Parked v.store.dedupState user b → user ≠ shot.senderId := by
    rintro user b hb rfl
    exact not_parked_of_slot hslot b hb
  simp only [Viewer.seed, PlaybackStore.seedFromSnapshot, if_pos hseeds, if_true]
  refine h.takeEffect hprom (PlaybackStore.snapshotEvent room.id shot) nowMs _ _ hle
    (le_max_right _ _) (h.delivered.trans (le_max_left _ _)) ?_ ?_ (fun _ => hpaused) ?_
  · intro user b hb
    rw [parked_insert] at hb
    by_cases hu : user = shot.senderId
    · simp [hu] at hb
    · rw [if_neg hu] at hb
      exact h.parked user b hb
  · by_cases hnew : v.newest ≤ shot.serverSeq
    · exact .inl (max_eq_right hnew).symm
    · rw [not_le] at hnew
      rw [max_eq_left hnew.le]
      rcases h.newest with heq | ⟨user, b, hb, heq⟩
      · omega
      · exact .inr ⟨user, b, parked_insert_other hb (hother user b hb), heq⟩
  · intro hlost n hn hd
    obtain ⟨user, b, hb, heq⟩ := h.held hlost n (hle.trans_lt hn) hd
    exact ⟨user, b, parked_insert_other hb (hother user b hb), heq⟩

/-- Replaying a stretch of the log takes the paused flag from one end to the other. -/
lemma serverPaused_replay (hlog : IsLog log) {l : List PlaybackStateEvent} {a b : ℕ}
    (hsorted : l.Pairwise fun x y => x.serverSeq < y.serverSeq)
    (hof : ∀ x ∈ l, ∃ (n : ℕ) (e : PlaybackAcceptedEvent), log[n]? = some e ∧ x = stateEvent room e)
    (hall : ∀ m, (∃ x ∈ l, x.serverSeq = m) ↔ a < m ∧ m ≤ b) (hab : a ≤ b) :
    (l.map PlaybackStateEvent.kind).foldl nextHostPaused (serverPaused room log a) =
      serverPaused room log b := by
  induction l generalizing a with
  | nil =>
    have hba : a = b := by
      by_contra hne
      obtain ⟨x, hx, -⟩ := (hall b).mpr ⟨by omega, le_rfl⟩
      cases hx
    rw [hba]
    rfl
  | cons x l ih =>
    rw [List.pairwise_cons] at hsorted
    have hx := (hall x.serverSeq).mp ⟨x, List.mem_cons_self, rfl⟩
    -- the first event is the one after `a`
    have hxa : x.serverSeq = a + 1 := by
      obtain ⟨y, hy, hya⟩ := (hall (a + 1)).mpr ⟨by omega, by omega⟩
      rcases List.mem_cons.mp hy with rfl | hy
      · exact hya
      · have := hsorted.1 y hy
        omega
    obtain ⟨n, e, hn, hxe⟩ := hof x List.mem_cons_self
    have hseq := hlog.serverSeq n e hn
    have hna : a = n := by
      rw [hxe] at hxa
      have hxa : e.serverSeq = a + 1 := hxa
      omega
    rw [List.map_cons, List.foldl_cons]
    have hstep : nextHostPaused (serverPaused room log a) x.kind = serverPaused room log
        (a + 1) := by
      rw [hna, hxe, serverPaused_succ hn]
      rfl
    rw [hstep]
    refine ih hsorted.2 (fun y hy => hof y (List.mem_cons_of_mem _ hy)) ?_ (by omega)
    intro m
    constructor
    · rintro ⟨y, hy, rfl⟩
      have := hsorted.1 y hy
      have := (hall y.serverSeq).mp ⟨y, List.mem_cons_of_mem _ hy, rfl⟩
      omega
    · rintro ⟨hm, hmb⟩
      obtain ⟨y, hy, rfl⟩ := (hall m).mpr ⟨by omega, hmb⟩
      rcases List.mem_cons.mp hy with rfl | hy
      · omega
      · exact ⟨y, hy, rfl⟩

/-- The events that expire in a tick have different numbers. -/
lemma timedOut_pairwise (hlog : IsLog log) {state : DedupState}
    (hof : ∀ user b, Parked state user b → OfLog room log user b) (nowMs : ℤ) :
    (timedOut state nowMs).Pairwise fun x y => x.serverSeq ≠ y.serverSeq := by
  have hkeys : state.entries.Pairwise fun x y => x.1 ≠ y.1 := List.pairwise_map.mp state.nodupKeys
  rw [timedOut, List.pairwise_filterMap, AList.vals, List.pairwise_map]
  refine hkeys.imp_of_mem ?_
  rintro ⟨user, d⟩ ⟨user', d'⟩ hmem hmem' hne x hx y hy heq
  have hpark : ∀ {user : Uuid} {d : SenderDedupState} {x : PlaybackStateEvent},
      (⟨user, d⟩ : (_ : Uuid) × SenderDedupState) ∈ state.entries →
      (d.held nowMs).map (·.event) = some x → ∃ b, Parked state user b ∧ b.event = x := by
    intro user d x hmem hx
    obtain ⟨b, hb, hbx⟩ := Option.map_eq_some_iff.mp hx
    exact ⟨b, ⟨d, AList.get_eq_some_iff.mpr hmem, (Option.filter_eq_some_iff.mp hb).1⟩, hbx⟩
  obtain ⟨b, hb, rfl⟩ := hpark hmem hx
  obtain ⟨b', hb', rfl⟩ := hpark hmem' hy
  exact hne ((hof user b hb).unique hlog (hof user' b' hb') heq).1

/-- **Ticks.** A tick in turn keeps the order and takes nothing back. -/
lemma Orderly.tick (hlog : IsLog log) (h : Orderly room log v) (nowMs : ℤ)
    (hg : TicksInTurn v nowMs) :
    Orderly room log { v with store := (v.store.tickDedup nowMs).2 } ∧
      v.store.effectSeq ≤ (v.store.tickDedup nowMs).2.effectSeq := by
  have hkept : ∀ user b, Parked (tickDedup v.store.dedupState nowMs).2 user b →
      OfLog room log user b ∧ b.event.serverSeq ≤ v.delivered := by
    intro user b hb
    exact h.parked user b ((parked_tick nowMs).mp hb).1
  rcases v.store.tickDedup_cases nowMs with ⟨hnil, hstore⟩ | ⟨before, x, hperm, hsorted, hstore⟩
  · have hstay : ∀ user b, Parked v.store.dedupState user b →
        Parked (tickDedup v.store.dedupState nowMs).2 user b := by
      intro user b hb
      refine (parked_tick nowMs).mpr ⟨hb, fun ht => ?_⟩
      have hmem : b.event ∈ (tickDedup v.store.dedupState nowMs).1 :=
        mem_timedOut.mpr ⟨user, b, hb, ht, rfl⟩
      rw [hnil] at hmem
      cases hmem
    rw [hstore]
    refine ⟨⟨h.inRoom, h.applied, h.marked, h.effect, h.delivered, hkept, ?_, h.paused, ?_⟩, le_rfl⟩
    · refine h.newest.imp id ?_
      rintro ⟨user, b, hb, heq⟩
      exact ⟨user, b, hstay user b hb, heq⟩
    · intro hlost n hn hle
      obtain ⟨user, b, hb, heq⟩ := h.held hlost n hn hle
      exact ⟨user, b, hstay user b hb, heq⟩
  have hmem : ∀ y, y ∈ before ++ [x] ↔
      ∃ user b, Parked v.store.dedupState user b ∧ b.TimedOut nowMs ∧ b.event = y :=
    fun y => hperm.mem_iff.trans mem_timedOut
  have hmax : ∀ y ∈ before ++ [x], y.serverSeq ≤ x.serverSeq := by
    intro y hy
    rcases List.mem_append.mp hy with hy | hy
    · exact (List.pairwise_append.mp hsorted).2.2 y hy x (List.mem_singleton_self x)
    · rw [List.mem_singleton.mp hy]
  have hxmem : x ∈ before ++ [x] := List.mem_append_right _ (List.mem_singleton_self x)
  obtain ⟨⟨e₀, he₀, hle₀⟩, hprom, hclean⟩ := hg fun hnil => by
    have hlen := hperm.length_eq
    rw [show (tickDedup v.store.dedupState nowMs).1 = timedOut v.store.dedupState nowMs from rfl,
      hnil] at hlen
    simp at hlen
  have hle : v.store.effectSeq ≤ x.serverSeq := hle₀.trans (hmax e₀ (hperm.mem_iff.mpr he₀))
  have hxd : x.serverSeq ≤ v.delivered := by
    obtain ⟨user, b, hb, -, rfl⟩ := (hmem x).mp hxmem
    exact (h.parked user b hb).2
  rw [hstore]
  refine h.takeEffect hprom x nowMs _ _ hle (hxd.trans h.delivered) h.delivered hkept ?_ ?_ ?_
  · rcases h.newest with heq | ⟨user, b, hb, heq⟩
    · have := h.delivered
      exact .inl (by omega)
    · by_cases ht : b.TimedOut nowMs
      · have := hmax b.event ((hmem _).mpr ⟨user, b, hb, ht, rfl⟩)
        have := h.delivered
        exact .inl (by omega)
      · exact .inr ⟨user, b, (parked_tick nowMs).mpr ⟨hb, ht⟩, heq⟩
  · intro hlost
    have hclean := hclean hlost
    have hstrict : (before ++ [x]).Pairwise fun a b => a.serverSeq < b.serverSeq := by
      have hne : (before ++ [x]).Pairwise fun a b => a.serverSeq ≠ b.serverSeq :=
        (hperm.pairwise_iff fun hab => hab.symm).mpr
          (timedOut_pairwise hlog (fun user b hb => (h.parked user b hb).1) nowMs)
      exact (hsorted.and hne).imp fun hab => lt_of_le_of_ne hab.1 hab.2
    rw [h.paused hlost]
    refine serverPaused_replay hlog hstrict ?_ ?_ hle
    · intro y hy
      obtain ⟨user, b, hb, -, rfl⟩ := (hmem y).mp hy
      obtain ⟨n, e, hn, hbe, -⟩ := (h.parked user b hb).1
      exact ⟨n, e, hn, hbe⟩
    · intro m
      constructor
      · rintro ⟨y, hy, rfl⟩
        exact ⟨(hclean y (hperm.mem_iff.mp hy)).1, hmax y hy⟩
      · rintro ⟨hm, hmx⟩
        obtain ⟨user, b, hb, rfl⟩ := h.held hlost m hm (hmx.trans hxd)
        by_cases hbx : b.event.serverSeq = x.serverSeq
        · exact ⟨x, hxmem, hbx.symm⟩
        · refine ⟨b.event, hperm.mem_iff.mpr ?_, rfl⟩
          exact (hclean x (hperm.mem_iff.mp hxmem)).2 b.event
            (mem_parkedEvents.mpr ⟨user, b, hb, rfl⟩) hm (by omega)
  · intro hlost n hn hd
    obtain ⟨user, b, hb, heq⟩ := h.held hlost n (hle.trans_lt hn) hd
    refine ⟨user, b, (parked_tick nowMs).mpr ⟨hb, fun ht => ?_⟩, heq⟩
    have := hmax b.event ((hmem _).mpr ⟨user, b, hb, ht, rfl⟩)
    omega

/-! ### The other steps -/

/-- A step that leaves the command in effect and the numbering alone keeps the order. -/
lemma Orderly.keep (h : Orderly room log v) {store : PlaybackStore}
    (hroom : store.roomId = v.store.roomId) (hdedup : store.dedupState = v.store.dedupState)
    (hpaused : store.hostPaused = v.store.hostPaused)
    (heff : store.effectSeq = v.store.effectSeq) (happlied : store.appliedSeq ≤ store.effectSeq)
    (hmarked : store.lastAppliedServerSeq ≤ store.effectSeq) :
    Orderly room log { v with store } ∧ v.store.effectSeq ≤ store.effectSeq := by
  refine ⟨⟨?_, happlied, hmarked, ?_, h.delivered, ?_, ?_, ?_, ?_⟩, heff.ge⟩
  · rw [hroom]
    exact h.inRoom
  · rw [heff]
    exact h.effect
  · rw [hdedup]
    exact h.parked
  · rw [hdedup, heff]
    exact h.newest
  · rw [hpaused, heff]
    exact h.paused
  · rw [hdedup, heff]
    exact h.held

lemma Orderly.markApplied (h : Orderly room log v) (n : ℕ) :
    Orderly room log { v with store := v.store.markApplied n } ∧
      v.store.effectSeq ≤ (v.store.markApplied n).effectSeq := by
  unfold PlaybackStore.markApplied
  by_cases hn : v.store.lastApplied.any (·.serverSeq = n) = true
  · rw [if_pos hn]
    refine h.keep rfl rfl rfl rfl h.applied ?_
    obtain ⟨e, he, hen⟩ := (Option.any_eq_true _ _).mp hn
    have happlied : v.store.appliedSeq = n := by
      simpa [PlaybackStore.appliedSeq, he] using hen
    exact happlied ▸ h.applied
  · rw [if_neg hn]
    exact ⟨h, le_rfl⟩

lemma Orderly.promote (h : Orderly room log v) :
    Orderly room log { v with store := v.store.promote } ∧
      v.store.effectSeq ≤ v.store.promote.effectSeq := by
  unfold PlaybackStore.promote
  split
  swap
  · exact ⟨h, le_rfl⟩
  rcases hp : v.store.pending with _ | p
  · exact ⟨h, le_rfl⟩
  have heff : v.store.effectSeq = p.event.serverSeq := by
    simp [PlaybackStore.effectSeq, PlaybackStore.inEffect, hp]
  have hmarked := h.marked
  dsimp only
  split
  · rename_i hany
    obtain ⟨e, he, hle⟩ := (Option.any_eq_true _ _).mp hany
    have hle : p.event.serverSeq ≤ e.serverSeq := of_decide_eq_true hle
    have happlied : v.store.appliedSeq = e.serverSeq := by simp [PlaybackStore.appliedSeq, he]
    have := h.applied
    have heff' : ({ v.store with pending := none } : PlaybackStore).effectSeq =
        v.store.effectSeq := by
      have hnone : ({ v.store with pending := none } : PlaybackStore).effectSeq =
          v.store.appliedSeq := rfl
      omega
    refine h.keep rfl rfl rfl heff' ?_ ?_
    · rw [heff']
      exact h.applied
    · rw [heff']
      exact hmarked
  · have heff' : ({ v.store with lastApplied := some p.event, pending := none } :
        PlaybackStore).effectSeq = v.store.effectSeq := by
      rw [heff]
      rfl
    refine h.keep rfl rfl rfl heff' ?_ ?_
    · exact le_rfl
    · rw [heff']
      exact hmarked

/-- **Steps.** A step in turn keeps the order and takes nothing back. -/
theorem Orderly.step (hlog : IsLog log) (hopen : room.state = .open) (h : Orderly room log v)
    {i : ViewerInput} {v' : Viewer} (hg : InTurn room log v i)
    (hs : viewer room log v i = some v') :
    Orderly room log v' ∧ v.store.effectSeq ≤ v'.store.effectSeq := by
  cases i with
  | deliver n nowMs =>
    obtain ⟨e, hn, hs⟩ := Option.bind_eq_some_iff.mp hs
    by_cases horder : e.serverSeq < v.delivered
    · simp [horder] at hs
    · rw [if_neg horder] at hs
      cases hs
      exact h.deliver hlog hn (not_lt.mp horder) nowMs (hg e hn)
  | seed n nowMs =>
    obtain ⟨shot, hshot, rfl⟩ := Option.map_eq_some_iff.mp hs
    exact h.seed nowMs (snapshot_of_log hlog hopen hshot).2 (hg shot hshot)
  | tick nowMs =>
    cases hs
    exact h.tick hlog nowMs hg
  | mediaReady ready =>
    cases hs
    exact h.keep rfl rfl rfl rfl h.applied h.marked
  | promote =>
    cases hs
    exact h.promote
  | markApplied n =>
    cases hs
    exact h.markApplied n

end Steps

/-- A viewer that has entered the room is in order. -/
lemma orderly_start {room : RoomState} {log : List PlaybackAcceptedEvent} {roomId : Option Uuid}
    (hopen : room.state = .open) (hroom : ∀ r, roomId = some r → r = room.id) (ready : Bool) :
    Orderly room log (.start roomId ready) := by
  refine ⟨?_, le_rfl, le_rfl, le_rfl, le_rfl, ?_, .inl rfl, ?_, ?_⟩
  · rcases roomId with _ | r
    · rfl
    · simp [Viewer.start, PlaybackStore.initial, hroom r rfl]
  · intro user b hb
    exact absurd hb not_parked_empty
  · intro _
    exact (serverPaused_zero hopen).symm
  · intro _ n hn hle
    exact absurd hn (not_lt.mpr hle)

/-- **A viewer's playback never goes back.** In a run in which no command that took effect is
overtaken by an older one and no newer one is refused: the command in effect never goes back; once
nothing is parked it is the newest one delivered or seeded; and if nothing was lost the play state
is the server's as of it. -/
theorem viewer_follows_log {room : RoomState} {log : List PlaybackAcceptedEvent}
    {roomId : Option Uuid} {ready : Bool} {v v' : Viewer} (hlog : IsLog log)
    (hopen : room.state = .open) (hroom : ∀ r, roomId = some r → r = room.id)
    (r : (viewer room log).Reaches (InTurn room log) (.start roomId ready) v)
    (r' : (viewer room log).Reaches (InTurn room log) v v') :
    v.store.effectSeq ≤ v'.store.effectSeq ∧
      (parkedEvents v'.store.dedupState = [] → v'.store.effectSeq = v'.newest) ∧
      (v'.lost = false → v'.store.hostPaused = serverPaused room log v'.store.effectSeq) := by
  have hstep : ∀ s i s', Orderly room log s → InTurn room log s i → viewer room log s i = some s' →
      Orderly room log s' ∧ s.store.effectSeq ≤ s'.store.effectSeq :=
    fun s i s' hs hg hi => hs.step hlog hopen hg hi
  have hv : Orderly room log v :=
    r.invariant (orderly_start hopen hroom ready) fun s i s' hs hg hi => (hstep s i s' hs hg hi).1
  have hv' : Orderly room log v' :=
    r'.invariant hv fun s i s' hs hg hi => (hstep s i s' hs hg hi).1
  refine ⟨r'.mono (fun s => s.store.effectSeq) hv hstep, fun hnone => ?_, hv'.paused⟩
  refine hv'.newest.resolve_right ?_
  rintro ⟨user, b, hb, -⟩
  have hmem := mem_parkedEvents.mpr ⟨user, b, hb, rfl⟩
  rw [hnone] at hmem
  cases hmem

/-! ### A host migration while an event is parked -/

namespace Migration

def room : RoomState := .new 1 "K7M2QD" "film" 10 (.replicate 32 0) true 0 0 0

/-- The old host (10) plays, seeks and pauses; the room migrates to 11, who plays. -/
def log : List PlaybackAcceptedEvent :=
  [ { senderId := 10, action := .play, monotonicSeq := 1, mediaPositionMs := 0, clientTsMs := 0,
      serverSeq := 1, serverTsMs := 0 },
    { senderId := 10, action := .seek, monotonicSeq := 2, mediaPositionMs := 60000, clientTsMs := 0,
      serverSeq := 2, serverTsMs := 10 },
    { senderId := 10, action := .pause, monotonicSeq := 3, mediaPositionMs :=
      61000, clientTsMs := 0, serverSeq := 3, serverTsMs := 1000 },
    { senderId := 11, action := .play, monotonicSeq := 1, mediaPositionMs := 61000, clientTsMs := 0,
      serverSeq := 4, serverTsMs := 2000 } ]

lemma isLog : IsLog log := by
  constructor
  · intro n e h
    rcases n with _ | _ | _ | _ | n <;> cases h <;> rfl
  · intro n e h
    rcases n with _ | _ | _ | _ | n <;> cases h
    · exact .inl rfl
    · exact .inr ⟨_, rfl, rfl⟩
    · exact .inr ⟨_, rfl, rfl⟩
    · exact .inl rfl

/-- The seek is lost, so the pause is parked; the new host plays; then the pause times out. -/
theorem not_viewer_follows_log :
    IsLog log ∧ room.state = .open ∧
      ∃ v, (viewer room log).Reaches Machine.free (.start (some room.id) true) v ∧
        ∃ v', (viewer room log).Reaches Machine.free v v' ∧
          v'.store.effectSeq < v.store.effectSeq := by
  refine ⟨isLog, rfl, ?_⟩
  refine Machine.exists_reaches_of_play
    [.deliver 0 0, .deliver 2 1000, .deliver 3 2000, .markApplied 4]
    (fun v => (viewer room log v (.tick 6000)).any fun v' =>
      decide (v'.store.effectSeq < v.store.effectSeq)) ?_ (by decide +kernel)
  intro v hv
  obtain ⟨v', hstep, hlt⟩ := (Option.any_eq_true _ _).mp hv
  exact ⟨v', .single ⟨_, trivial, hstep⟩, of_decide_eq_true hlt⟩

/-- The first command arrives twice while the media is not ready yet, and is applied when it is. -/
def first : List ViewerInput :=
  [.deliver 0 0, .deliver 0 10, .mediaReady true, .promote, .markApplied 1]

/-- The seek is lost, so the pause is parked until it times out; a snapshot is as of the new host's
play, which then arrives as well. -/
def second : List ViewerInput :=
  [.deliver 2 1000, .tick 6000, .seed 4 7000, .deliver 3 8000]

def played (v : Viewer) (inputs : List ViewerInput) : Viewer :=
  ((viewer room log).play (InTurn room log) v inputs).getD v

lemma play_eq (v : Viewer) (inputs : List ViewerInput)
    (h : ((viewer room log).play (InTurn room log) v inputs).isSome = true) :
    (viewer room log).play (InTurn room log) v inputs = some (played v inputs) := by
  obtain ⟨v', hv'⟩ := Option.isSome_iff_exists.1 h
  rw [played, hv']
  rfl

def ready : Viewer := played (.start (some room.id) false) first

/-- While nothing is lost the play state is the server's, and what is taken late catches up. -/
theorem viewer_follows_log_second :
    ready.lost = false ∧ (played ready second).lost = true ∧
      ready.store.hostPaused = serverPaused room log ready.store.effectSeq ∧
      ready.store.effectSeq ≤ (played ready second).store.effectSeq ∧
      (played ready second).store.effectSeq = (played ready second).newest := by
  have hroom : ∀ r, some room.id = some r → r = room.id := fun r h => (Option.some.inj h).symm
  have hfirst := Machine.reaches_of_play
    (play_eq (.start (some room.id) false) first (by decide +kernel))
  have hsecond := Machine.reaches_of_play (play_eq ready second (by decide +kernel))
  have hkept := (viewer_follows_log isLog rfl hroom hfirst .refl).2.2
  obtain ⟨hle, hnewest, -⟩ := viewer_follows_log isLog rfl hroom hfirst hsecond
  exact ⟨by decide +kernel, by decide +kernel, hkept (by decide +kernel), hle,
    hnewest (by decide +kernel)⟩

end Migration

end Locast.Client
