import Locast.Client.PlaybackOrder
import Locast.Rooms.PlaybackLog

/-!
# The log of a running server

The commands that a room accepted since its server started, and what the room remembers of them.  A
sender's numbers go up by one from command to command, and start over at one when the sender joins
again.
-/

namespace Locast.Client

open Locast.Lib Locast.Protocol Locast.Rooms

/-- The last command of a sender among the first `n`. -/
def lastOf (log : List PlaybackAcceptedEvent) (user : Uuid) (n : ℕ) :
    Option PlaybackAcceptedEvent :=
  (log.take n).reverse.find? (·.senderId = user)

variable {log : List PlaybackAcceptedEvent} {user : Uuid} {n : ℕ} {e : PlaybackAcceptedEvent}

lemma lastOf_succ (h : log[n]? = some e) :
    lastOf log user (n + 1) = if e.senderId = user then some e else lastOf log user n := by
  rw [lastOf, List.take_add_one, h]
  by_cases hu : e.senderId = user <;> simp [lastOf, hu]

lemma lastOf_append (h : n ≤ log.length) (more : List PlaybackAcceptedEvent) :
    lastOf (log ++ more) user n = lastOf log user n := by
  rw [lastOf, lastOf, List.take_append_of_le_length h]

/-- Where the last command of a sender stands. -/
lemma lastOf_eq_some {b : PlaybackAcceptedEvent} (h : lastOf log user n = some b) :
    b.senderId = user ∧ ∃ k < n, log[k]? = some b := by
  refine ⟨by simpa using List.find?_some h, ?_⟩
  have hmem : b ∈ log.take n := List.mem_reverse.1 (List.mem_of_find?_eq_some h)
  obtain ⟨k, hk⟩ := List.getElem?_of_mem hmem
  rw [List.getElem?_take] at hk
  split at hk
  · exact ⟨k, ‹_›, hk⟩
  · cases hk

namespace IsLog

lemma next_number (hlog : IsLog log) (h : log[n]? = some e) :
    e.monotonicSeq = 1 ∨ ∃ before, lastOf log e.senderId n = some before ∧
      e.monotonicSeq = before.monotonicSeq + 1 := hlog.monotonicSeq n e h

/-- Numbers are positive, and at most the place in the log. -/
lemma number_bounds (hlog : IsLog log) (h : log[n]? = some e) :
    1 ≤ e.monotonicSeq ∧ e.monotonicSeq ≤ n + 1 := by
  induction n using Nat.strong_induction_on generalizing e with
  | _ n ih =>
    rcases hlog.next_number h with h1 | ⟨before, hbefore, h1⟩
    · omega
    · obtain ⟨-, k, hk, hget⟩ := lastOf_eq_some hbefore
      have := ih k hk hget
      omega

/-- One more command. -/
lemma snoc (hlog : IsLog log) (hseq : e.serverSeq = log.length + 1)
    (hnum : e.monotonicSeq = 1 ∨ ∃ before, lastOf log e.senderId log.length = some before ∧
      e.monotonicSeq = before.monotonicSeq + 1) : IsLog (log ++ [e]) := by
  have hcases {n : ℕ} {x : PlaybackAcceptedEvent} (h : (log ++ [e])[n]? = some x) :
      log[n]? = some x ∨ n = log.length ∧ x = e := by
    rw [List.getElem?_append] at h
    split at h
    · exact .inl h
    · rename_i hn
      obtain ⟨hlt, hx⟩ := List.getElem?_eq_some_iff.1 h
      have hn' : n - log.length = 0 := by simpa using hlt
      refine .inr ⟨by omega, ?_⟩
      simpa [hn'] using hx.symm
  have hlast {n : ℕ} {x : PlaybackAcceptedEvent} (hn : n ≤ log.length) :
      ((log ++ [e]).take n).reverse.find? (·.senderId = x.senderId) = lastOf log x.senderId n :=
    lastOf_append hn [e]
  refine ⟨fun n x h => ?_, fun n x h => ?_⟩
  · rcases hcases h with h | ⟨rfl, rfl⟩
    · exact hlog.serverSeq n x h
    · exact hseq
  · rcases hcases h with h | ⟨rfl, rfl⟩
    · rw [hlast (Nat.le_of_lt (List.getElem?_eq_some_iff.1 h).1)]
      exact hlog.next_number h
    · rw [hlast le_rfl]
      exact hnum

end IsLog

/-! ### Numbers that start over -/

/-- No command of the sender at these places starts its numbers over. -/
def SameNumbers (log : List PlaybackAcceptedEvent) (user : Uuid) (p n : ℕ) : Prop :=
  ∀ k e, p ≤ k → k ≤ n → log[k]? = some e → e.senderId = user → e.monotonicSeq ≠ 1

/-- **While a sender does not start over, its numbers go up.** -/
theorem IsLog.number_lt (hlog : IsLog log) {b : PlaybackAcceptedEvent} {p : ℕ}
    (hb : lastOf log user p = some b) (hpn : p ≤ n) (h : log[n]? = some e) (hu : e.senderId = user)
    (hsame : SameNumbers log user p n) : b.monotonicSeq < e.monotonicSeq := by
  have hle : ∀ m, p ≤ m → m ≤ n →
      ∃ c, lastOf log user m = some c ∧ b.monotonicSeq ≤ c.monotonicSeq := fun m hpm => by
    induction m, hpm using Nat.le_induction with
    | base => exact fun _ => ⟨b, hb, le_rfl⟩
    | succ m hpm ih =>
      intro hmn
      obtain ⟨c, hc, hbc⟩ := ih (by omega)
      have hlt : m < log.length := by
        have := (List.getElem?_eq_some_iff.1 h).1
        omega
      have hget := List.getElem?_eq_getElem hlt
      rw [lastOf_succ hget]
      split
      · rename_i hsender
        refine ⟨_, rfl, ?_⟩
        rcases hlog.next_number hget with h1 | ⟨before, hbefore, h1⟩
        · exact absurd h1 (hsame m _ hpm (by omega) hget hsender)
        · rw [hsender, hc] at hbefore
          obtain rfl := Option.some.inj hbefore
          omega
      · exact ⟨c, hc, hbc⟩
  obtain ⟨c, hc, hbc⟩ := hle n hpn le_rfl
  rcases hlog.next_number h with h1 | ⟨before, hbefore, h1⟩
  · exact absurd h1 (hsame n e hpn le_rfl h hu)
  · rw [hu, hc] at hbefore
    obtain rfl := Option.some.inj hbefore
    omega

/-! ### The room's memory of its log -/

/-- The room counts its log, and remembers the numbers of those who have not joined since, and the
last command. -/
structure Logged (room : RoomState) (log : List PlaybackAcceptedEvent) : Prop where
  isLog : IsLog log
  counted : room.playback.serverSeq = log.length
  acked : ∀ u m, room.playback.lastAckedSeq.get u = some m →
    ∃ e, lastOf log u log.length = some e ∧ e.monotonicSeq = m
  lastSender : ∀ u, room.playback.lastSender = some u →
    ∃ e, log.getLast? = some e ∧ e.senderId = u ∧ e.monotonicSeq = room.playback.lastMonotonicSeq

variable {room room' : RoomState}

/-- A room that has just started. -/
lemma logged_nil (h : room.playback = .empty) : Logged room [] where
  isLog := ⟨fun n e h => by simp at h, fun n e h => by simp at h⟩
  counted := by rw [h]; rfl
  acked u m hm := by simp [h, PlaybackBookkeeping.empty] at hm
  lastSender u hu := by simp [h, PlaybackBookkeeping.empty] at hu

/-- The number that a sender's next command has. -/
lemma Logged.next_number (h : Logged room log) (hlt : room.playback.serverSeq < u64Max) (u : Uuid) :
    min (room.lastAcked u + 1) u64Max = room.lastAcked u + 1 ∧
      (room.lastAcked u = 0 ∨ ∃ before, lastOf log u log.length = some before ∧
        room.lastAcked u = before.monotonicSeq) := by
  have hcount := h.counted
  unfold RoomState.lastAcked
  cases hm : room.playback.lastAckedSeq.get u with
  | none => exact ⟨by simp only [Option.getD_none]; omega, .inl rfl⟩
  | some m =>
    obtain ⟨e, he, rfl⟩ := h.acked u m hm
    obtain ⟨-, k, hk, hget⟩ := lastOf_eq_some he
    have := (h.isLog.number_bounds hget).2
    exact ⟨by simp only [Option.getD_some]; omega, .inr ⟨e, he, rfl⟩⟩

/-- **A section keeps the room and its log together.** -/
theorem Logged.step (h : Logged room log) {accepted : Option PlaybackAcceptedEvent}
    (he : PlaybackEffect room room' accepted) : Logged room' (log ++ accepted.toList) := by
  cases he with
  | kept hp =>
    rw [Option.toList_none, List.append_nil]
    exact ⟨h.isLog, hp ▸ h.counted, hp ▸ h.acked, hp ▸ h.lastSender⟩
  | joined u _ hp =>
    rw [Option.toList_none, List.append_nil]
    refine ⟨h.isLog, hp ▸ h.counted, fun v m hm => ?_, hp ▸ h.lastSender⟩
    rw [hp] at hm
    simp only [AList.get_erase] at hm
    split at hm
    · cases hm
    · exact h.acked v m hm
  | accepted e _ hroom hseq hnum hlt =>
    obtain ⟨hmin, hlast⟩ := h.next_number hlt e.senderId
    have hcount := h.counted
    have hget : (log ++ [e])[log.length]? = some e := by simp
    rw [Option.toList_some, hroom]
    refine ⟨h.isLog.snoc (by omega) ?_, ?_, fun u m hm => ?_, fun u hu => ?_⟩
    · rcases hlast with h0 | ⟨before, hbefore, h0⟩
      · exact .inl (by omega)
      · exact .inr ⟨before, hbefore, by omega⟩
    · simp only [RoomState.accept, List.length_append, List.length_singleton]
      omega
    · rw [List.length_append, List.length_singleton, lastOf_succ hget]
      simp only [RoomState.accept, AList.get_insert] at hm
      by_cases hu : u = e.senderId
      · subst hu
        rw [if_pos rfl] at hm ⊢
        exact ⟨e, rfl, Option.some.inj hm⟩
      · rw [if_neg hu] at hm
        rw [if_neg (Ne.symm hu), lastOf_append le_rfl]
        exact h.acked u m hm
    · simp only [RoomState.accept] at hu ⊢
      exact ⟨e, by simp, Option.some.inj hu, rfl⟩

/-- A snapshot of the playback is as of a command of the log. -/
def ShotOf (log : List PlaybackAcceptedEvent) (shot : PlaybackSnapshot) : Prop :=
  ∃ n e, log[n]? = some e ∧ shot.serverSeq = n + 1 ∧ shot.senderId = e.senderId ∧
    shot.monotonicSeq = e.monotonicSeq

lemma ShotOf.append {shot : PlaybackSnapshot} (h : ShotOf log shot)
    (more : List PlaybackAcceptedEvent) : ShotOf (log ++ more) shot := by
  obtain ⟨n, e, hget, h⟩ := h
  exact ⟨n, e, by rw [List.getElem?_append_left (List.getElem?_eq_some_iff.1 hget).1, hget], h⟩

/-- **The snapshot of a room is as of its last command.** -/
theorem Logged.shotOf (h : Logged room log) {shot : PlaybackSnapshot}
    (hshot : room.playbackSnapshot = some shot) : ShotOf log shot := by
  have hcount := h.counted
  have hsome : ∃ u paused, room.playback.lastSender = some u ∧ shot = {
      paused
      mediaPositionMs := room.playback.lastPositionMs
      serverTsMs := room.playback.lastServerTsMs
      serverSeq := room.playback.serverSeq
      senderId := u
      monotonicSeq := room.playback.lastMonotonicSeq } := by
    unfold RoomState.playbackSnapshot at hshot
    dsimp only at hshot
    split at hshot
    · obtain ⟨u, hu, rfl⟩ := Option.map_eq_some_iff.1 hshot
      exact ⟨u, _, hu, rfl⟩
    · obtain ⟨u, hu, rfl⟩ := Option.map_eq_some_iff.1 hshot
      exact ⟨u, _, hu, rfl⟩
    · cases hshot
    · cases hshot
  obtain ⟨u, paused, hu, rfl⟩ := hsome
  obtain ⟨e, hlast, hsender, hnum⟩ := h.lastSender u hu
  have hne : log ≠ [] := fun hnil => by simp [hnil] at hlast
  have hpos := List.length_pos_of_ne_nil hne
  rw [List.getLast?_eq_getElem?] at hlast
  exact ⟨log.length - 1, e, hlast, by dsimp only; omega, hsender.symm, hnum.symm⟩

end Locast.Client
