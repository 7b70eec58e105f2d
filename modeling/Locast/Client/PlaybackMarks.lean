import Locast.Client.PlaybackStore

/-!
# The marks of a viewer's store

How far a store has come: a bound on the numbers of the commands in it, and the highest number of
each sender's record.  A command above both is admitted.
-/

namespace Locast.Client

open Locast.Lib Locast.Protocol

namespace PlaybackStore

def setRoomId (roomId : Option Uuid) (s : PlaybackStore) : PlaybackStore :=
  if s.roomId ≠ roomId then
    { s with
      roomId
      lastApplied := none
      hostPaused := false
      pending := none
      lastAppliedServerSeq := 0
      dedupState := ∅ }
  else s

/-- The host's own command, which has no number yet, under the mark. -/
def recordHostCommand (event : PlaybackStateEvent) (s : PlaybackStore) : PlaybackStore :=
  if s.roomId.any (· ≠ event.roomId) then s
  else { s with
    lastApplied := some { event with serverSeq := s.lastAppliedServerSeq }
    hostPaused := nextHostPaused s.hostPaused event.kind }

end PlaybackStore

/-! ### A sender's record -/

namespace SenderDedupState

/-- The highest number the record has seen. -/
def top (d : SenderDedupState) : ℕ := (d.pending.map (·.seq)).getD d.lastAppliedSeq

/-- What is parked is above the last number. -/
def Ordered (d : SenderDedupState) : Prop := ∀ p ∈ d.pending, d.lastAppliedSeq < p.seq

/-- The record takes the number one for a fresh start, and drains nothing for it. -/
def StartsOver (d : SenderDedupState) : Prop :=
  1 < d.lastAppliedSeq ∨ d.lastAppliedSeq = 0 ∧ ∀ p ∈ d.pending, p.seq ≠ 2

@[simp] lemma top_idle (last : ℕ) : (⟨last, none⟩ : SenderDedupState).top = last := rfl

lemma ordered_idle (last : ℕ) : (⟨last, none⟩ : SenderDedupState).Ordered := by
  intro p hp
  cases hp

lemma Ordered.lastAppliedSeq_le {d : SenderDedupState} (h : d.Ordered) :
    d.lastAppliedSeq ≤ d.top := by
  obtain ⟨last, _ | p⟩ := d
  · exact le_rfl
  · exact (h p rfl).le

/-- The tick keeps the highest number. -/
lemma ticked_top (nowMs : ℤ) (d : SenderDedupState) : (d.ticked nowMs).top = d.top := by
  unfold ticked
  cases h : d.held nowMs with
  | none => rfl
  | some p =>
    obtain ⟨hp, -⟩ := Option.filter_eq_some_iff.1 h
    simp [top, hp]

lemma Ordered.ticked {d : SenderDedupState} (h : d.Ordered) (nowMs : ℤ) :
    (d.ticked nowMs).Ordered := by
  unfold SenderDedupState.ticked
  split
  · exact ordered_idle _
  · exact h

end SenderDedupState

section Sender

variable {sender : Option SenderDedupState} {e : PlaybackStateEvent}

/-- **The record after an event** has the event's number or keeps its own. -/
lemma evaluateSender_record (nowMs : ℤ) (hs : ∀ d ∈ sender, d.Ordered) :
    ∀ d ∈ (evaluateSender sender e nowMs).2,
      d.Ordered ∧ (d.top = e.monotonicSeq ∨ ∃ d₀ ∈ sender, d.top = d₀.top) := by
  have hpark {last : ℕ} (h : last < e.monotonicSeq) : ∀ d ∈
      (some ⟨last, some ⟨e, nowMs, e.monotonicSeq⟩⟩ : Option SenderDedupState),
      d.Ordered ∧ (d.top = e.monotonicSeq ∨ ∃ d₀ ∈ sender, d.top = d₀.top) := by
    rintro d ⟨⟩
    refine ⟨?_, .inl rfl⟩
    rintro p ⟨⟩
    exact h
  have hidle : ∀ d ∈ (some ⟨e.monotonicSeq, none⟩ : Option SenderDedupState),
      d.Ordered ∧ (d.top = e.monotonicSeq ∨ ∃ d₀ ∈ sender, d.top = d₀.top) := by
    rintro d ⟨⟩
    exact ⟨SenderDedupState.ordered_idle _, .inl rfl⟩
  have hkept : ∀ d ∈ (none : Option SenderDedupState),
      d.Ordered ∧ (d.top = e.monotonicSeq ∨ ∃ d₀ ∈ sender, d.top = d₀.top) := by
    rintro d ⟨⟩
  rcases sender with _ | d
  · by_cases h0 : e.monotonicSeq = 0
    · simp [evaluateSender, h0]
    by_cases h1 : e.monotonicSeq = 1
    · simpa [evaluateSender, h1] using hidle
    · simpa only [evaluateSender, if_neg h0, if_neg h1] using hpark (Nat.pos_of_ne_zero h0)
  simp only [evaluateSender]
  split
  · rename_i h
    rw [h.1] at hidle ⊢
    exact hidle
  split
  · exact hkept
  rename_i hle
  split
  · rename_i hnext
    split
    · rename_i p hp
      split
      · rename_i hdrain
        rintro d' ⟨⟩
        refine ⟨SenderDedupState.ordered_idle _, .inr ⟨d, rfl, ?_⟩⟩
        simp [SenderDedupState.top, hp, hdrain]
      · exact hidle
    · exact hidle
  · split
    · split
      · exact hkept
      · exact hpark (not_le.1 hle)
    · exact hpark (not_le.1 hle)

/-- **A number above the record**, or a fresh start, is applied or parked, and drains nothing. -/
lemma evaluateSender_admits (nowMs : ℤ) (hs : ∀ d ∈ sender, d.Ordered) (hpos : 0 < e.monotonicSeq)
    (hnew : ∀ d ∈ sender, d.top < e.monotonicSeq ∨ e.monotonicSeq = 1 ∧ d.StartsOver) :
    (takes sender e.monotonicSeq = true ∧
      evaluateSender sender e nowMs = (.apply none, some ⟨e.monotonicSeq, none⟩)) ∨
    (takes sender e.monotonicSeq = false ∧ ∃ last, evaluateSender sender e nowMs =
      (.buffer, some ⟨last, some ⟨e, nowMs, e.monotonicSeq⟩⟩)) := by
  rcases sender with _ | d
  · by_cases h1 : e.monotonicSeq = 1
    · exact .inl ⟨by simp [takes, h1], by simp [evaluateSender, h1]⟩
    · exact .inr ⟨by simp [takes, h1], 0, by simp [evaluateSender, hpos.ne', h1]⟩
  have hlast := (hs d rfl).lastAppliedSeq_le
  by_cases hreset : e.monotonicSeq = 1 ∧ 1 < d.lastAppliedSeq
  · refine .inl ⟨by simp [takes, hreset], ?_⟩
    simp only [evaluateSender, if_pos hreset]
    rw [hreset.1]
  rcases hnew d rfl with habove | ⟨h1, hover⟩
  · have hle : ¬e.monotonicSeq ≤ d.lastAppliedSeq := by omega
    by_cases hnext : e.monotonicSeq = d.lastAppliedSeq + 1
    · have hnone : d.pending = none := by
        rcases hp : d.pending with _ | p
        · rfl
        · have := hs d rfl p hp
          have : d.top = p.seq := by simp [SenderDedupState.top, hp]
          omega
      refine .inl ⟨by simp [takes, hnext], ?_⟩
      simp only [evaluateSender, if_neg hreset, if_neg hle, if_pos hnext, hnone]
    · refine .inr ⟨by simp [takes, hnext, hreset], d.lastAppliedSeq, ?_⟩
      simp only [evaluateSender, if_neg hreset, if_neg hle, if_neg hnext]
      rcases hp : d.pending with _ | p
      · rfl
      · have : d.top = p.seq := by simp [SenderDedupState.top, hp]
        exact if_neg (by omega)
  · rcases hover with h | ⟨h0, hdrain⟩
    · exact absurd ⟨h1, h⟩ hreset
    have hnext : e.monotonicSeq = d.lastAppliedSeq + 1 := by omega
    have hle : ¬e.monotonicSeq ≤ d.lastAppliedSeq := by omega
    refine .inl ⟨by simp [takes, hnext], ?_⟩
    simp only [evaluateSender, if_neg hreset, if_neg hle, if_pos hnext]
    rcases hp : d.pending with _ | p
    · rfl
    · have := hdrain p hp
      exact if_neg (by omega)

end Sender

/-- Every record is ordered. -/
def RecordsOrdered (state : DedupState) : Prop := ∀ user d, state.get user = some d → d.Ordered

lemma recordsOrdered_empty : RecordsOrdered ∅ := by
  intro user d hd
  simp at hd

lemma RecordsOrdered.insert {state : DedupState} (h : RecordsOrdered state) (user : Uuid)
    {d : SenderDedupState} (hd : d.Ordered) : RecordsOrdered (state.insert user d) := by
  intro u d' hget
  rw [AList.get_insert] at hget
  split at hget
  · cases hget
    exact hd
  · exact h u d' hget

namespace PlaybackStore

variable {s : PlaybackStore} {b : ℕ} {e : PlaybackStateEvent} {nowMs : ℤ}

/-! ### A bound on the numbers -/

/-- No command in the store has a number above the bound. -/
structure Bounded (s : PlaybackStore) (b : ℕ) : Prop where
  mark : s.lastAppliedServerSeq ≤ b
  applied : ∀ e, s.lastApplied = some e → e.serverSeq ≤ b
  pending : ∀ p, s.pending = some p → p.event.serverSeq ≤ b
  parked : ∀ user p, Parked s.dedupState user p → p.event.serverSeq ≤ b

lemma bounded_initial (roomId : Option Uuid) (ready : Bool) : (initial roomId ready).Bounded 0 where
  mark := le_rfl
  applied e he := by cases he
  pending p hp := by cases hp
  parked user p hp := absurd hp not_parked_empty

lemma Bounded.mono {b' : ℕ} (h : s.Bounded b) (hle : b ≤ b') : s.Bounded b' where
  mark := h.mark.trans hle
  applied e he := (h.applied e he).trans hle
  pending p hp := (h.pending p hp).trans hle
  parked user p hp := (h.parked user p hp).trans hle

lemma Bounded.put (h : s.Bounded b) (he : e.serverSeq ≤ b) : (s.put e nowMs).Bounded b := by
  unfold PlaybackStore.put
  split
  · refine ⟨h.mark, ?_, h.pending, h.parked⟩
    rintro e' ⟨⟩
    exact he
  · refine ⟨h.mark, h.applied, ?_, h.parked⟩
    rintro p ⟨⟩
    exact he

/-- Other records and another play state. -/
lemma Bounded.records (h : s.Bounded b) (hostPaused : Bool) {dedupState : DedupState}
    (hd : ∀ user p, Parked dedupState user p → p.event.serverSeq ≤ b) :
    ({ s with dedupState, hostPaused } : PlaybackStore).Bounded b :=
  ⟨h.mark, h.applied, h.pending, hd⟩

lemma Bounded.parked_insert (h : s.Bounded b) {user : Uuid} {d : SenderDedupState}
    (hd : ∀ p, d.pending = some p → p.event.serverSeq ≤ b) :
    ∀ u p, Parked (s.dedupState.insert user d) u p → p.event.serverSeq ≤ b := by
  intro u p hp
  rw [Client.parked_insert] at hp
  split at hp
  · exact hd p hp
  · exact h.parked u p hp

/-- A store that refuses an event for its room or its number. -/
lemma acceptEvent_refused (nowMs : ℤ) (h : s.roomId.any (· ≠ e.roomId) = true ∨
    e.serverSeq ≤ s.lastAppliedServerSeq) : s.acceptEvent e nowMs = (false, s) := by
  unfold acceptEvent
  split
  · rfl
  · rename_i hroom
    rw [if_pos (h.resolve_left hroom)]

lemma Bounded.acceptEvent (h : s.Bounded b) (he : e.serverSeq ≤ b) (nowMs : ℤ) :
    (s.acceptEvent e nowMs).2.Bounded b := by
  by_cases hrefused : s.roomId.any (· ≠ e.roomId) = true ∨ e.serverSeq ≤ s.lastAppliedServerSeq
  · rw [acceptEvent_refused nowMs hrefused]
    exact h
  obtain ⟨hroom, hmark⟩ := not_or.1 hrefused
  rcases s.acceptEvent_cases e nowMs (by simpa using hroom) (not_le.1 hmark) with
    ⟨-, hs⟩ | ⟨-, last, hostPaused, x, hs, hx, -⟩ | ⟨-, ⟨last, hs⟩, -⟩
  · rw [hs]
    exact h
  · rw [hs]
    refine (h.records hostPaused (h.parked_insert ?_)).put ?_
    · rintro p ⟨⟩
    · rcases hx with hx | ⟨p, hp, hx⟩
      · omega
      · have := h.parked _ p hp
        omega
  · rw [hs]
    refine h.records s.hostPaused (h.parked_insert ?_)
    rintro p ⟨⟩
    exact he

lemma Bounded.tickDedup (h : s.Bounded b) (nowMs : ℤ) : (s.tickDedup nowMs).2.Bounded b := by
  have hkept : ∀ user p, Parked (Client.tickDedup s.dedupState nowMs).2 user p →
      p.event.serverSeq ≤ b := fun user p hp => h.parked user p ((parked_tick nowMs).1 hp).1
  rcases s.tickDedup_cases nowMs with ⟨-, hs⟩ | ⟨before, x, hperm, -, hs⟩
  · rw [hs]
    exact h.records s.hostPaused hkept
  · have hx : x ∈ (Client.tickDedup s.dedupState nowMs).1 :=
      hperm.mem_iff.1 (List.mem_append_right _ (List.mem_singleton_self x))
    obtain ⟨user, p, hp, -, rfl⟩ := mem_timedOut.1 hx
    rw [hs]
    exact (h.records _ hkept).put (h.parked user p hp)

lemma Bounded.seedFromSnapshot (h : s.Bounded b) (roomId : Uuid) {shot : PlaybackSnapshot}
    (hshot : shot.serverSeq ≤ b) (nowMs : ℤ) :
    (s.seedFromSnapshot roomId shot nowMs).2.Bounded b := by
  unfold PlaybackStore.seedFromSnapshot
  split
  · refine (h.records shot.paused (h.parked_insert ?_)).put hshot
    rintro p ⟨⟩
  · exact h

lemma Bounded.markApplied (h : s.Bounded b) (n : ℕ) : (s.markApplied n).Bounded b := by
  unfold PlaybackStore.markApplied
  split
  · rename_i hany
    obtain ⟨e, he, hn⟩ := (Option.any_eq_true _ _).1 hany
    refine ⟨?_, h.applied, h.pending, h.parked⟩
    rw [← of_decide_eq_true hn]
    exact h.applied e he
  · exact h

lemma Bounded.promote (h : s.Bounded b) : s.promote.Bounded b := by
  unfold PlaybackStore.promote
  split
  · split
    · exact h
    · rename_i p hp
      split
      · exact ⟨h.mark, h.applied, by rintro p ⟨⟩, h.parked⟩
      · refine ⟨h.mark, ?_, by rintro p ⟨⟩, h.parked⟩
        rintro e ⟨⟩
        exact h.pending p hp
  · exact h

lemma Bounded.recordHostCommand (h : s.Bounded b) (e : PlaybackStateEvent) :
    (s.recordHostCommand e).Bounded b := by
  unfold PlaybackStore.recordHostCommand
  split
  · exact h
  · refine ⟨h.mark, ?_, h.pending, h.parked⟩
    rintro e' ⟨⟩
    exact h.mark

lemma Bounded.setRoomId (h : s.Bounded b) (roomId : Option Uuid) :
    (s.setRoomId roomId).Bounded b := by
  unfold PlaybackStore.setRoomId
  split
  · refine ⟨Nat.zero_le b, ?_, ?_, fun user p hp => absurd hp not_parked_empty⟩
    · rintro e ⟨⟩
    · rintro p ⟨⟩
  · exact h

/-! ### Rooms and records -/

@[simp] lemma promote_roomId : s.promote.roomId = s.roomId := by
  unfold promote
  split
  · split
    · rfl
    · split <;> rfl
  · rfl

@[simp] lemma promote_dedupState : s.promote.dedupState = s.dedupState := by
  unfold promote
  split
  · split
    · rfl
    · split <;> rfl
  · rfl

@[simp] lemma markApplied_roomId (n : ℕ) : (s.markApplied n).roomId = s.roomId := by
  unfold markApplied
  split <;> rfl

@[simp] lemma markApplied_dedupState (n : ℕ) : (s.markApplied n).dedupState = s.dedupState := by
  unfold markApplied
  split <;> rfl

@[simp] lemma recordHostCommand_roomId : (s.recordHostCommand e).roomId = s.roomId := by
  unfold recordHostCommand
  split <;> rfl

@[simp] lemma recordHostCommand_dedupState : (s.recordHostCommand e).dedupState = s.dedupState := by
  unfold recordHostCommand
  split <;> rfl

lemma acceptEvent_roomId : (s.acceptEvent e nowMs).2.roomId = s.roomId := by
  unfold acceptEvent
  split
  · rfl
  split
  · rfl
  dsimp only
  split <;> simp

/-- The records after an event: the store leaves it, or evaluates it. -/
lemma acceptEvent_dedupState : (s.acceptEvent e nowMs).2.dedupState = s.dedupState ∨
    (s.acceptEvent e nowMs).2.dedupState = (evaluateDedup s.dedupState e nowMs).2 := by
  unfold acceptEvent
  split
  · exact .inl rfl
  split
  · exact .inl rfl
  dsimp only
  split <;> simp

lemma tickDedup_roomId : (s.tickDedup nowMs).2.roomId = s.roomId := by
  unfold tickDedup
  dsimp only
  split <;> simp

lemma tickDedup_dedupState :
    (s.tickDedup nowMs).2.dedupState = s.dedupState.mapVals (·.ticked nowMs) := by
  unfold tickDedup
  dsimp only
  split <;> simp [Client.tickDedup]

lemma seedFromSnapshot_roomId {roomId : Uuid} {shot : PlaybackSnapshot} :
    (s.seedFromSnapshot roomId shot nowMs).2.roomId = s.roomId := by
  unfold seedFromSnapshot
  split <;> simp

/-! ### Admission -/

/-- The command takes effect: at once, or when the media is ready. -/
def TakesEffect (s s' : PlaybackStore) (e : PlaybackStateEvent) : Prop :=
  if s.mediaReady then s'.lastApplied = some e
  else (s'.setMediaReady true).promote.lastApplied = some e

/-- **The store admits a command**: it accepts it, and the command takes effect, or waits for the
predecessors that its sender's record misses. -/
structure Admits (s : PlaybackStore) (e : PlaybackStateEvent) (nowMs : ℤ) : Prop where
  accepted : (s.acceptEvent e nowMs).1 = true
  effect : takes (s.dedupState.get e.senderId) e.monotonicSeq = true →
    s.TakesEffect (s.acceptEvent e nowMs).2 e
  waits : takes (s.dedupState.get e.senderId) e.monotonicSeq = false →
    Parked (s.acceptEvent e nowMs).2.dedupState e.senderId ⟨e, nowMs, e.monotonicSeq⟩

lemma takesEffect_put (hostPaused : Bool) (dedupState : DedupState)
    (h : ∀ e', s.lastApplied = some e' → e'.serverSeq < e.serverSeq) :
    s.TakesEffect (({ s with dedupState, hostPaused } : PlaybackStore).put e nowMs) e := by
  unfold TakesEffect put
  dsimp only
  split
  · rfl
  · have hnone : s.lastApplied.any (fun e' => decide (e.serverSeq ≤ e'.serverSeq)) = false := by
      rw [Option.any_eq_false]
      intro e' he'
      have := h e' he'
      simpa using this
    simp only [promote, setMediaReady, if_true, hnone, Bool.false_eq_true, if_false]

/-- **A command above the store's numbers is admitted.** -/
theorem admits_of_above (nowMs : ℤ) (hroom : s.roomId = some e.roomId) (hb : s.Bounded b)
    (hlt : b < e.serverSeq) (hs : RecordsOrdered s.dedupState) (hpos : 0 < e.monotonicSeq)
    (hnew : ∀ d, s.dedupState.get e.senderId = some d →
      d.top < e.monotonicSeq ∨ e.monotonicSeq = 1 ∧ d.StartsOver) : s.Admits e nowMs := by
  have hmark := hb.mark
  have hroom' : s.roomId.any (· ≠ e.roomId) = false := by simp [hroom]
  have hmark' : ¬e.serverSeq ≤ s.lastAppliedServerSeq := by omega
  rcases evaluateSender_admits nowMs (fun d hd => hs e.senderId d hd) hpos hnew with
    ⟨htakes, hout⟩ | ⟨htakes, last, hout⟩
  · have hrun : s.acceptEvent e nowMs = (true, ({ s with
        dedupState := s.dedupState.insert e.senderId ⟨e.monotonicSeq, none⟩
        hostPaused := nextHostPaused s.hostPaused e.kind } : PlaybackStore).put e nowMs) := by
      simp only [acceptEvent, hroom', Bool.false_eq_true, if_false, if_neg hmark',
        evaluateDedup, hout]
    refine ⟨by rw [hrun], fun _ => ?_, fun h => absurd h (by simp [htakes])⟩
    rw [hrun]
    exact takesEffect_put _ _ fun e' he' => (hb.applied e' he').trans_lt hlt
  · have hrun : s.acceptEvent e nowMs = (true, { s with
        dedupState := s.dedupState.insert e.senderId
          ⟨last, some ⟨e, nowMs, e.monotonicSeq⟩⟩ }) := by
      simp only [acceptEvent, hroom', Bool.false_eq_true, if_false, if_neg hmark',
        evaluateDedup, hout]
    refine ⟨by rw [hrun], fun h => absurd h (by simp [htakes]), fun _ => ?_⟩
    rw [hrun]
    exact Client.parked_insert.2 (by rw [if_pos rfl])

end PlaybackStore

end Locast.Client
