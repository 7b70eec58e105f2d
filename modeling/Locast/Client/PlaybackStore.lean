import Locast.Lib.AssocMap
import Locast.Protocol.Room
import Mathlib.Data.List.Sort

/-!
# The playback store (`stores/usePlaybackStore.ts`, `drift/dedup.ts`)

A viewer's store of the room's playback.  An event passes the room's order, then the order of its
sender, and takes effect: at once, or when the media is ready.  An event that leaves a gap in its
sender's numbers is parked for five seconds.
-/

namespace Locast.Client

open Locast.Lib Locast.Protocol

/-! ### Data -/

/-- An accepted command as the webview receives it. -/
structure PlaybackStateEvent where
  roomId : Uuid
  serverSeq : ℕ
  serverTsMs : ℤ
  senderId : Uuid
  monotonicSeq : ℕ
  kind : PlaybackAction
  mediaPositionMs : ℕ
  deriving DecidableEq

/-- An event that waits for its predecessors. -/
structure BufferedEvent where
  event : PlaybackStateEvent
  parkedAtMs : ℤ
  seq : ℕ
  deriving DecidableEq

structure SenderDedupState where
  lastAppliedSeq : ℕ
  pending : Option BufferedEvent
  deriving DecidableEq

/-- The state of each sender's numbering. -/
abbrev DedupState : Type := AMap Uuid SenderDedupState

/-- The event parked until the media is ready. -/
structure ParkedEvent where
  event : PlaybackStateEvent
  parkedAtMs : ℤ
  deriving DecidableEq

structure PlaybackStore where
  roomId : Option Uuid
  lastApplied : Option PlaybackStateEvent
  hostPaused : Bool
  pending : Option ParkedEvent
  lastAppliedServerSeq : ℕ
  mediaReady : Bool
  dedupState : DedupState
  deriving DecidableEq

/-! ### Dedup -/

/-- `BUFFER_TIMEOUT_MS`. -/
def bufferTimeoutMs : ℤ := 5000

inductive DedupDecision where
  | apply (drain : Option PlaybackStateEvent)
  | drop
  | buffer
  deriving DecidableEq

/-- What becomes of an event in the order of its sender, and the record of the sender it
leaves, if it leaves one. -/
def evaluateSender (sender : Option SenderDedupState) (event : PlaybackStateEvent) (nowMs : ℤ) :
    DedupDecision × Option SenderDedupState :=
  let seq := event.monotonicSeq
  let park (last : ℕ) : DedupDecision × Option SenderDedupState :=
    (.buffer, some ⟨last, some ⟨event, nowMs, seq⟩⟩)
  match sender with
  | none =>
    if seq = 0 then (.drop, none)
    else if seq = 1 then (.apply none, some ⟨1, none⟩)
    else park 0
  | some d =>
    -- a sender that rejoined counts from 1 again
    if seq = 1 ∧ 1 < d.lastAppliedSeq then (.apply none, some ⟨1, none⟩)
    else if seq ≤ d.lastAppliedSeq then (.drop, none)
    else if seq = d.lastAppliedSeq + 1 then
      match d.pending with
      | some p =>
        if p.seq = seq + 1 then (.apply (some p.event), some ⟨seq + 1, none⟩)
        else (.apply none, some ⟨seq, none⟩)
      | none => (.apply none, some ⟨seq, none⟩)
    else
      match d.pending with
      | some p => if seq ≤ p.seq then (.drop, none) else park d.lastAppliedSeq
      | none => park d.lastAppliedSeq

/-- `evaluateDedup`. -/
def evaluateDedup (state : DedupState) (event : PlaybackStateEvent) (nowMs : ℤ) :
    DedupDecision × DedupState :=
  let out := evaluateSender (state.get event.senderId) event nowMs
  (out.1, match out.2 with
    | some d => state.insert event.senderId d
    | none => state)

/-- The records after a command: its sender's, and the others as they were. -/
lemma evaluateDedup_get (state : DedupState) (e : PlaybackStateEvent) (nowMs : ℤ) (user : Uuid) :
    (evaluateDedup state e nowMs).2.get user =
      if user = e.senderId then
        (evaluateSender (state.get e.senderId) e nowMs).2.or (state.get e.senderId)
      else state.get user := by
  unfold evaluateDedup
  dsimp only
  by_cases hu : user = e.senderId
  · subst hu
    rw [if_pos rfl]
    cases (evaluateSender (state.get e.senderId) e nowMs).2 with
    | none => rfl
    | some d => simp
  · rw [if_neg hu]
    split <;> simp [AList.get_insert, hu]

/-- The parked event of a sender, if it has waited long enough. -/
def SenderDedupState.held (nowMs : ℤ) (d : SenderDedupState) : Option BufferedEvent :=
  d.pending.filter fun p => decide (bufferTimeoutMs ≤ nowMs - p.parkedAtMs)

/-- A sender after the tick. -/
def SenderDedupState.ticked (nowMs : ℤ) (d : SenderDedupState) : SenderDedupState :=
  match d.held nowMs with
  | some p => ⟨p.seq, none⟩
  | none => d

/-- The parked events that have waited long enough. -/
def timedOut (state : DedupState) (nowMs : ℤ) : List PlaybackStateEvent :=
  state.vals.filterMap fun d => (d.held nowMs).map (·.event)

/-- `tickDedup` of `drift/dedup.ts`: the expired events, which leave their slots. -/
def tickDedup (state : DedupState) (nowMs : ℤ) : List PlaybackStateEvent × DedupState :=
  (timedOut state nowMs, state.mapVals (·.ticked nowMs))

/-! ### Store -/

/-- Whether the room is paused after a command. -/
def nextHostPaused (prevPaused : Bool) : PlaybackAction → Bool
  | .play => false
  | .pause => true
  | .seek => prevPaused

/-- The event to apply when a filler drains its parked successor. -/
def mergeGapFill (filler drained : PlaybackStateEvent) : PlaybackStateEvent :=
  let serverSeq := max filler.serverSeq drained.serverSeq
  if drained.kind = .seek ∧ filler.kind ≠ .seek then { drained with kind := filler.kind, serverSeq }
  else { drained with serverSeq }

namespace PlaybackStore

/-- The store of a viewer that has entered a room. -/
def initial (roomId : Option Uuid) (mediaReady : Bool) : PlaybackStore where
  roomId := roomId
  lastApplied := none
  hostPaused := false
  pending := none
  lastAppliedServerSeq := 0
  mediaReady := mediaReady
  dedupState := ∅

/-- Puts an event into effect, or parks it until the media is ready. -/
def put (event : PlaybackStateEvent) (nowMs : ℤ) (s : PlaybackStore) : PlaybackStore :=
  if s.mediaReady then { s with lastApplied := some event }
  else { s with pending := some ⟨event, nowMs⟩ }

def acceptEvent (event : PlaybackStateEvent) (nowMs : ℤ) (s : PlaybackStore) :
    Bool × PlaybackStore :=
  if s.roomId.any (· ≠ event.roomId) then (false, s)
  else if event.serverSeq ≤ s.lastAppliedServerSeq then (false, s)
  else
    let dedup := evaluateDedup s.dedupState event nowMs
    let s := { s with dedupState := dedup.2 }
    match dedup.1 with
    | .drop => (false, s)
    | .buffer => (true, s)
    | .apply none =>
      (true, { s with hostPaused := nextHostPaused s.hostPaused event.kind }.put event nowMs)
    | .apply (some parked) =>
      let drained := mergeGapFill event parked
      let hostPaused := nextHostPaused (nextHostPaused s.hostPaused event.kind) drained.kind
      (true, { s with hostPaused }.put drained nowMs)

/-- The snapshot is for this room, newer than what was applied and than what is parked, and its
sender has nothing parked. -/
def seeds (roomId : Uuid) (snapshot : PlaybackSnapshot) (s : PlaybackStore) : Bool :=
  s.roomId.all (· = roomId) &&
    decide (s.lastAppliedServerSeq < snapshot.serverSeq) &&
    s.pending.all (fun p => decide (p.event.serverSeq < snapshot.serverSeq)) &&
    (s.dedupState.get snapshot.senderId).all fun d => d.pending.isNone

/-- The command a snapshot stands in for. -/
def snapshotEvent (roomId : Uuid) (snapshot : PlaybackSnapshot) : PlaybackStateEvent where
  roomId := roomId
  serverSeq := snapshot.serverSeq
  serverTsMs := snapshot.serverTsMs
  senderId := snapshot.senderId
  monotonicSeq := snapshot.monotonicSeq
  kind := if snapshot.paused then .pause else .play
  mediaPositionMs := snapshot.mediaPositionMs

def seedFromSnapshot (roomId : Uuid) (snapshot : PlaybackSnapshot) (nowMs : ℤ)
    (s : PlaybackStore) : Bool × PlaybackStore :=
  if s.seeds roomId snapshot then
    let last := ((s.dedupState.get snapshot.senderId).map (·.lastAppliedSeq)).getD 0
    let sender : SenderDedupState := ⟨max last snapshot.monotonicSeq, none⟩
    (true, { s with
      dedupState := s.dedupState.insert snapshot.senderId sender
      hostPaused := snapshot.paused }.put (snapshotEvent roomId snapshot) nowMs)
  else (false, s)

def markApplied (serverSeq : ℕ) (s : PlaybackStore) : PlaybackStore :=
  if s.lastApplied.any (·.serverSeq = serverSeq) then { s with lastAppliedServerSeq := serverSeq }
  else s

def setMediaReady (ready : Bool) (s : PlaybackStore) : PlaybackStore :=
  { s with mediaReady := ready }

/-- `tickDedup`: the expired events are replayed in the server's order, the newest is put into
effect. -/
def tickDedup (nowMs : ℤ) (s : PlaybackStore) : ℕ × PlaybackStore :=
  let out := Client.tickDedup s.dedupState nowMs
  let expired := out.1.mergeSort fun a b => decide (a.serverSeq ≤ b.serverSeq)
  let s := { s with dedupState := out.2 }
  match expired.getLast? with
  | none => (0, s)
  | some applied =>
    (expired.length, { s with
      hostPaused := (expired.map PlaybackStateEvent.kind).foldl nextHostPaused s.hostPaused }.put
        applied nowMs)

/-- The Player's effect on a media that got ready: the parked event takes effect if it is newer. -/
def promote (s : PlaybackStore) : PlaybackStore :=
  if s.mediaReady then
    match s.pending with
    | none => s
    | some p =>
      if s.lastApplied.any (fun e => decide (p.event.serverSeq ≤ e.serverSeq)) then
        { s with pending := none }
      else { s with lastApplied := some p.event, pending := none }
  else s

/-- The command in effect: the one parked for the media, else the last applied. -/
def inEffect (s : PlaybackStore) : Option PlaybackStateEvent :=
  match s.pending with
  | some p => some p.event
  | none => s.lastApplied

/-- Its number, zero if nothing took effect yet. -/
def effectSeq (s : PlaybackStore) : ℕ := (s.inEffect.map (·.serverSeq)).getD 0

/-- The number of the last command applied. -/
def appliedSeq (s : PlaybackStore) : ℕ := (s.lastApplied.map (·.serverSeq)).getD 0

end PlaybackStore

/-! ### Parked events -/

/-- The event is parked for its sender. -/
def Parked (state : DedupState) (user : Uuid) (b : BufferedEvent) : Prop :=
  ∃ d, state.get user = some d ∧ d.pending = some b

/-- The events parked for their senders. -/
def parkedEvents (state : DedupState) : List PlaybackStateEvent :=
  state.vals.filterMap fun d => d.pending.map (·.event)

section Parked

variable {state : DedupState} {user user' : Uuid} {b b' : BufferedEvent} {d : SenderDedupState}

lemma mem_parkedEvents {e : PlaybackStateEvent} :
    e ∈ parkedEvents state ↔ ∃ user b, Parked state user b ∧ b.event = e := by
  simp only [parkedEvents, List.mem_filterMap, AList.mem_vals, Option.map_eq_some_iff, Parked]
  constructor
  · rintro ⟨d, ⟨u, hu⟩, b, hb, rfl⟩
    exact ⟨u, b, ⟨d, hu, hb⟩, rfl⟩
  · rintro ⟨u, b, ⟨d, hu, hb⟩, rfl⟩
    exact ⟨d, ⟨u, hu⟩, b, hb, rfl⟩

lemma Parked.unique (h : Parked state user b) (h' : Parked state user b') : b = b' := by
  obtain ⟨d, hd, hb⟩ := h
  obtain ⟨d', hd', hb'⟩ := h'
  rw [hd] at hd'
  cases hd'
  exact Option.some.inj (hb.symm.trans hb')

lemma parked_insert :
    Parked (state.insert user d) user' b ↔
      if user' = user then d.pending = some b else Parked state user' b := by
  unfold Parked
  rw [AList.get_insert]
  by_cases h : user' = user
  · simp [h]
  · simp [h]

lemma parked_insert_other (h : Parked state user' b) (hne : user' ≠ user) :
    Parked (state.insert user d) user' b := by
  rw [parked_insert, if_neg hne]
  exact h

lemma not_parked_empty : ¬Parked ∅ user b := by
  rintro ⟨d, hd, -⟩
  simp at hd

/-- The event has waited long enough. -/
def BufferedEvent.TimedOut (b : BufferedEvent) (nowMs : ℤ) : Prop :=
  bufferTimeoutMs ≤ nowMs - b.parkedAtMs

lemma parked_tick (nowMs : ℤ) :
    Parked (tickDedup state nowMs).2 user b ↔ Parked state user b ∧ ¬b.TimedOut nowMs := by
  simp only [Parked, tickDedup, AList.get_mapVals, Option.map_eq_some_iff]
  constructor
  · rintro ⟨_, ⟨d, hd, rfl⟩, hb⟩
    unfold SenderDedupState.ticked SenderDedupState.held at hb
    rcases hp : d.pending with _ | p
    · simp [hp] at hb
    · by_cases ht : p.TimedOut nowMs
      · have ht' : bufferTimeoutMs ≤ nowMs - p.parkedAtMs := ht
        simp [hp, Option.filter, ht'] at hb
      · have ht' : ¬bufferTimeoutMs ≤ nowMs - p.parkedAtMs := ht
        simp only [hp, Option.filter, ht', decide_false, Bool.false_eq_true, if_false] at hb
        cases hb
        exact ⟨⟨d, hd, hp⟩, ht⟩
  · rintro ⟨⟨d, hd, hp⟩, ht⟩
    have ht' : ¬bufferTimeoutMs ≤ nowMs - b.parkedAtMs := ht
    refine ⟨_, ⟨d, hd, rfl⟩, ?_⟩
    simp [SenderDedupState.ticked, SenderDedupState.held, hp, Option.filter, ht']

lemma mem_timedOut {nowMs : ℤ} {e : PlaybackStateEvent} :
    e ∈ timedOut state nowMs ↔ ∃ user b, Parked state user b ∧ b.TimedOut nowMs ∧ b.event = e := by
  simp only [timedOut, List.mem_filterMap, AList.mem_vals, Option.map_eq_some_iff,
    SenderDedupState.held, Option.filter_eq_some_iff, decide_eq_true_eq, Parked]
  constructor
  · rintro ⟨d, ⟨u, hu⟩, b, ⟨hb, ht⟩, rfl⟩
    exact ⟨u, b, ⟨d, hu, hb⟩, ht, rfl⟩
  · rintro ⟨u, b, ⟨d, hu, hb⟩, ht, rfl⟩
    exact ⟨d, ⟨u, hu⟩, b, ⟨hb, ht⟩, rfl⟩

end Parked

/-! ### The order of a sender -/

/-- The sender's record takes this number at once: the next one, or a fresh start. -/
def takes (sender : Option SenderDedupState) (seq : ℕ) : Bool :=
  match sender with
  | none => seq = 1
  | some d => seq = 1 ∧ 1 < d.lastAppliedSeq ∨ seq = d.lastAppliedSeq + 1

/-- The sender's record refuses this number: it is not above the last one and not a fresh start, or
it leaves a gap and is not above the number of the parked event. -/
def refuses (sender : Option SenderDedupState) (seq : ℕ) : Bool :=
  match sender with
  | none => seq = 0
  | some d =>
    !takes sender seq && (decide (seq ≤ d.lastAppliedSeq) || d.pending.any (decide <| seq ≤ ·.seq))

/-- **The order of a sender.** An event is dropped if the record refuses its number, applied if it
takes it, with the parked event it drains if it drains one, and else parked in the place of an older
one. -/
lemma evaluateSender_cases (sender : Option SenderDedupState) (e : PlaybackStateEvent) (nowMs : ℤ) :
    refuses sender e.monotonicSeq = true ∧ evaluateSender sender e nowMs = (.drop, none) ∨
    (takes sender e.monotonicSeq = true ∧ ∃ drain last,
      evaluateSender sender e nowMs = (.apply drain, some ⟨last, none⟩) ∧
        ∀ p ∈ drain, ∃ b, sender.bind (·.pending) = some b ∧ b.event = p) ∨
    takes sender e.monotonicSeq = false ∧ (∃ last, evaluateSender sender e nowMs =
      (.buffer, some ⟨last, some ⟨e, nowMs, e.monotonicSeq⟩⟩)) ∧
        ∀ b, sender.bind (·.pending) = some b → b.seq < e.monotonicSeq := by
  rcases sender with _ | d
  · by_cases h0 : e.monotonicSeq = 0
    · exact .inl ⟨by simp [refuses, h0], by simp [evaluateSender, h0]⟩
    by_cases h1 : e.monotonicSeq = 1
    · exact .inr (.inl ⟨by simp [takes, h1], none, 1, by simp [evaluateSender, h1], by simp⟩)
    · exact .inr (.inr ⟨by simp [takes, h1], ⟨0, by simp [evaluateSender, h0, h1]⟩, by simp⟩)
  by_cases hreset : e.monotonicSeq = 1 ∧ 1 < d.lastAppliedSeq
  · exact .inr (.inl ⟨by simp [takes, hreset], none, 1, by simp [evaluateSender, hreset], by simp⟩)
  by_cases hnext : e.monotonicSeq = d.lastAppliedSeq + 1
  · have hle : ¬e.monotonicSeq ≤ d.lastAppliedSeq := by omega
    refine .inr (.inl ⟨by simp [takes, hnext], ?_⟩)
    simp only [evaluateSender, if_neg hreset, if_neg hle, if_pos hnext]
    rcases hp : d.pending with _ | p
    · exact ⟨none, _, rfl, by simp⟩
    · by_cases hdrain : p.seq = e.monotonicSeq + 1
      · exact ⟨some p.event, _, if_pos hdrain, by simp [hp]⟩
      · exact ⟨none, _, if_neg hdrain, by simp⟩
  have htakes : takes (some d) e.monotonicSeq = false := by simp [takes, hnext, hreset]
  by_cases hle : e.monotonicSeq ≤ d.lastAppliedSeq
  · exact .inl ⟨by simp [refuses, htakes, hle], by simp [evaluateSender, hreset, hle]⟩
  rcases hp : d.pending with _ | p
  · refine .inr (.inr ⟨htakes, ⟨d.lastAppliedSeq, ?_⟩, by simp [hp]⟩)
    simp [evaluateSender, hreset, hle, hnext, hp]
  by_cases hover : e.monotonicSeq ≤ p.seq
  · refine .inl ⟨by simp [refuses, htakes, hp, hover], ?_⟩
    simp [evaluateSender, hreset, hle, hnext, hp, hover]
  · refine .inr (.inr ⟨htakes, ⟨d.lastAppliedSeq, ?_⟩, ?_⟩)
    · simp [evaluateSender, hreset, hle, hnext, hp, hover]
    · intro b hb
      have hb : p = b := by simpa [hp] using hb
      subst hb
      omega

lemma bind_pending {state : DedupState} {user : Uuid} {b : BufferedEvent} :
    (state.get user).bind (·.pending) = some b ↔ Parked state user b := by
  rw [Option.bind_eq_some_iff]
  rfl

lemma mergeGapFill_serverSeq (filler drained : PlaybackStateEvent) :
    (mergeGapFill filler drained).serverSeq = max filler.serverSeq drained.serverSeq := by
  unfold mergeGapFill
  split <;> rfl

namespace PlaybackStore

/-- **Accepting an event.** An event of the room that is newer than the mark is dropped, or takes
effect (under the higher number, if it drains a parked event), or is parked in the place of an older
one. -/
lemma acceptEvent_cases (e : PlaybackStateEvent) (nowMs : ℤ) (s : PlaybackStore)
    (hroom : s.roomId.any (· ≠ e.roomId) = false) (hmark : s.lastAppliedServerSeq < e.serverSeq) :
    let sender := s.dedupState.get e.senderId
    refuses sender e.monotonicSeq = true ∧ (s.acceptEvent e nowMs).2 = s ∨
    (takes sender e.monotonicSeq = true ∧ ∃ last hostPaused x,
      (s.acceptEvent e nowMs).2 = { s with
        dedupState := s.dedupState.insert e.senderId ⟨last, none⟩, hostPaused }.put x nowMs ∧
      (x.serverSeq = e.serverSeq ∨ ∃ b, Parked s.dedupState e.senderId b ∧
        x.serverSeq = max e.serverSeq b.event.serverSeq) ∧
      ((∀ b, ¬Parked s.dedupState e.senderId b) →
        hostPaused = nextHostPaused s.hostPaused e.kind)) ∨
    takes sender e.monotonicSeq = false ∧
      (∃ last, (s.acceptEvent e nowMs).2 = { s with
        dedupState := (s.dedupState.insert e.senderId ⟨last, some ⟨e, nowMs, e.monotonicSeq⟩⟩) }) ∧
      ∀ b, Parked s.dedupState e.senderId b → b.seq < e.monotonicSeq := by
  intro sender
  have hroom' : ¬s.roomId.any (· ≠ e.roomId) = true := by
    rw [hroom]
    exact Bool.false_ne_true
  rw [acceptEvent, if_neg hroom', if_neg (not_le.mpr hmark), evaluateDedup]
  rcases evaluateSender_cases sender e nowMs with
    ⟨href, hout⟩ | ⟨htakes, _ | p, last, hout, hdrain⟩ | ⟨htakes, ⟨last, hout⟩, hlt⟩
  · rw [hout]
    exact .inl ⟨href, rfl⟩
  · rw [hout]
    exact .inr (.inl ⟨htakes, last, _, e, rfl, .inl rfl, fun _ => rfl⟩)
  · obtain ⟨b, hb, rfl⟩ := hdrain p rfl
    have hb := bind_pending.mp hb
    rw [hout]
    refine .inr (.inl ⟨htakes, last, _, mergeGapFill e b.event, rfl, .inr ⟨b, hb, ?_⟩, ?_⟩)
    · exact mergeGapFill_serverSeq e b.event
    · intro hnone
      exact absurd hb (hnone b)
  · rw [hout]
    exact .inr (.inr ⟨htakes, ⟨last, rfl⟩, fun b hb => hlt b (bind_pending.mpr hb)⟩)

/-- **The tick.** The expired events are replayed in the order of their numbers, and the newest
takes effect. -/
lemma tickDedup_cases (nowMs : ℤ) (s : PlaybackStore) :
    let out := Client.tickDedup s.dedupState nowMs
    (out.1 = [] ∧ (s.tickDedup nowMs).2 = { s with dedupState := out.2 }) ∨
    ∃ before x, (before ++ [x]).Perm out.1 ∧
      (before ++ [x]).Pairwise (fun a b => a.serverSeq ≤ b.serverSeq) ∧
      (s.tickDedup nowMs).2 = { s with
        dedupState := out.2
        hostPaused := ((before ++ [x]).map PlaybackStateEvent.kind).foldl nextHostPaused
          s.hostPaused }.put x nowMs := by
  intro out
  set sorted := out.1.mergeSort fun a b => decide (a.serverSeq ≤ b.serverSeq) with hsorted
  have hperm : sorted.Perm out.1 := List.mergeSort_perm _ _
  rcases hlast : sorted.getLast? with _ | x
  · refine .inl ⟨?_, ?_⟩
    · rw [List.getLast?_eq_none_iff] at hlast
      simpa [hlast] using hperm.symm
    · simp only [tickDedup, ← hsorted, out, hlast]
  · obtain ⟨before, hbefore⟩ := List.getLast?_eq_some_iff.mp hlast
    refine .inr ⟨before, x, hbefore ▸ hperm, hbefore ▸ ?_, ?_⟩
    · have hpair : sorted.Pairwise fun a b => decide (a.serverSeq ≤ b.serverSeq) = true :=
        List.pairwise_mergeSort
        (by intro a b c hab hbc; simp only [decide_eq_true_eq] at *; omega)
        (by intro a b; simp only [Bool.or_eq_true, decide_eq_true_eq]; omega) out.1
      simpa only [decide_eq_true_eq] using hpair
    · rw [← hbefore]
      simp only [tickDedup, ← hsorted, out, hlast]

@[simp] lemma put_roomId (s : PlaybackStore) (e : PlaybackStateEvent) (nowMs : ℤ) :
    (s.put e nowMs).roomId = s.roomId := by
  unfold put
  split <;> rfl

@[simp] lemma put_dedupState (s : PlaybackStore) (e : PlaybackStateEvent) (nowMs : ℤ) :
    (s.put e nowMs).dedupState = s.dedupState := by
  unfold put
  split <;> rfl

end PlaybackStore

end Locast.Client
