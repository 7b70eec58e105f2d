import Locast.Client.CommandLog
import Locast.Client.DrawingStore
import Locast.Client.PlaybackMarks
import Locast.Server.Boot

/-!
# A viewer that stays while its server restarts

A room on a server that restarts at any time, and a viewer of it that keeps its stores.  A restarted
server numbers the room's commands from one and its drawing events from the clock; the viewer's
stores only know the numbers they have seen.
-/

namespace Locast.Client

open Locast.Lib Locast.Protocol Locast.Rooms

/-! ### The room and its viewer -/

/-- The room as the running server has it, what that server has made for the viewer since it
started, and the viewer's stores. -/
structure Followed where
  room : RoomState
  log : List PlaybackAcceptedEvent
  shots : List PlaybackSnapshot
  drawn : List BroadcastItem
  syncs : List StrokeSyncPayload
  playback : PlaybackStore
  drawing : DrawingStore
  /-- The place of the next command in the log, and the newest snapshot the viewer took. -/
  next : ℕ
  seeded : ℕ
  /-- The place of the next drawing item, and the newest `DRAW_SYNC` the viewer took. -/
  nextDrawn : ℕ
  synced : ℕ
  /-- For each sender, how many commands the log had with the one whose number the viewer's record
  has. -/
  places : AMap Uuid ℕ
  /-- The highest number of a command or snapshot from earlier servers, and of their drawing
  items. -/
  earlier : ℕ
  earlierDrawn : ℕ

inductive FollowedInput where
  /-- A section of the running server. -/
  | turn (env : SectionEnv) (store : Store) (sec : Section)
  /-- The server restarts, and the viewer comes back to the same room. -/
  | restart (row : RoomRow) (participants : List (Uuid × RoomParticipantRow)) (wallMs : ℕ)
  /-- The command at this place of the log arrives. -/
  | deliver (n : ℕ) (nowMs : ℤ)
  /-- A room summary arrives, with the playback as of some section. -/
  | seed (k : ℕ) (nowMs : ℤ)
  /-- The drawing item at this place arrives. -/
  | draw (n : ℕ)
  /-- A `DRAW_SYNC` as of some section arrives. -/
  | sync (k : ℕ) (localIds : Finset Uuid)
  | tick (nowMs : ℤ)
  | mediaReady (ready : Bool)
  | promote
  | markApplied (serverSeq : ℕ)
  | recordHostCommand (event : PlaybackStateEvent)

namespace Followed

/-- A new room, and a viewer that has entered it. -/
def start (room : RoomState) (ready : Bool) : Followed where
  room := room
  log := []
  shots := []
  drawn := []
  syncs := []
  playback := .initial (some room.id) ready
  drawing := DrawingStore.initial.setRoomId (some room.id)
  next := 0
  seeded := 0
  nextDrawn := 0
  synced := 0
  places := ∅
  earlier := 0
  earlierDrawn := 0

/-- What a section leaves. -/
def turned (f : Followed) (sec : Section) (out : SectionOutcome sec.Reply) : Followed :=
  { f with
    room := out.state
    log := f.log ++ (sec.accepted out.reply).toList
    shots := f.shots ++ out.state.playbackSnapshot.toList
    drawn := f.drawn ++ drawingItems out.sent
    syncs := f.syncs ++ [out.state.drawing.snapshot] }

/-- The highest number the viewer has got, from this server or an earlier one. -/
def seen (f : Followed) : ℕ := max f.earlier (max f.next f.seeded)

/-- The room is read back, and the viewer is told its id again. -/
def restarted (f : Followed) (room : RoomState) : Followed where
  room := room
  log := []
  shots := []
  drawn := []
  syncs := []
  playback := f.playback.setRoomId (some room.id)
  drawing := f.drawing.setRoomId (some room.id)
  next := 0
  seeded := 0
  nextDrawn := 0
  synced := 0
  places := ∅
  earlier := f.seen
  earlierDrawn := f.drawing.lastSeq

/-- The places of the commands the records are as of, after the store took a number of the
sender. -/
def placed (f : Followed) (store : PlaybackStore) (sender : Uuid) (number place : ℕ) :
    AMap Uuid ℕ :=
  if (store.dedupState.get sender).any (·.top = number) then f.places.insert sender place
  else f.places

def delivered (f : Followed) (n : ℕ) (e : PlaybackAcceptedEvent) (nowMs : ℤ) : Followed :=
  let store := (f.playback.acceptEvent (stateEvent f.room e) nowMs).2
  { f with
    playback := store
    next := n + 1
    places := f.placed store e.senderId e.monotonicSeq (n + 1) }

def seededBy (f : Followed) (shot : PlaybackSnapshot) (nowMs : ℤ) : Followed :=
  let out := f.playback.seedFromSnapshot f.room.id shot nowMs
  if out.1 then
    { f with
      playback := out.2
      seeded := max f.seeded shot.serverSeq
      places := f.placed out.2 shot.senderId shot.monotonicSeq shot.serverSeq }
  else f

end Followed

/-- A viewer of a server that may restart: of each server it gets some of the commands and some of
the drawing items, in their order, and snapshots as of any section. -/
def followed : Machine Followed FollowedInput
  | f, .turn env store sec => (sec.run env store f.room).map (f.turned sec)
  | f, .restart row participants wallMs =>
    if row.state = .open ∧ row.id = f.room.id then
      some (f.restarted (row.rehydrated participants wallMs))
    else none
  | f, .deliver n nowMs =>
    (f.log[n]?).bind fun e => if n < f.next then none else some (f.delivered n e nowMs)
  | f, .seed k nowMs => (f.shots[k]?).map (f.seededBy · nowMs)
  | f, .draw n => (f.drawn[n]?).bind fun i =>
    if n < f.nextDrawn then none
    else some { f with drawing := (f.drawing.receive i).2, nextDrawn := n + 1 }
  | f, .sync k localIds => (f.syncs[k]?).map fun snapshot =>
    { f with
      drawing := f.drawing.sync f.room.id snapshot localIds
      synced := max f.synced snapshot.seq }
  | f, .tick nowMs => some { f with playback := (f.playback.tickDedup nowMs).2 }
  | f, .mediaReady ready => some { f with playback := f.playback.setMediaReady ready }
  | f, .promote => some { f with playback := f.playback.promote }
  | f, .markApplied n => some { f with playback := f.playback.markApplied n }
  | f, .recordHostCommand e => some { f with playback := f.playback.recordHostCommand e }

/-! ### The condition -/

/-- The viewer's record of a sender is as of a command since which the sender has not started its
numbers over, or the command starts them over and is told from an old one. -/
def Followed.KnowsSender (f : Followed) (n : ℕ) (e : PlaybackAcceptedEvent) : Prop :=
  ∀ d, f.playback.dedupState.get e.senderId = some d →
    e.monotonicSeq = 1 ∧ d.StartsOver ∨
      ∃ p, f.places.get e.senderId = some p ∧ SameNumbers f.log e.senderId p n

/-- The condition on a step: a command that no snapshot covers has a number above all that the
viewer got from earlier servers, and the viewer knows its sender; a drawing item that no snapshot
covers has a number above those of earlier servers. -/
def InStep (f : Followed) : FollowedInput → Prop
  | .deliver n _ => ∀ e, f.log[n]? = some e → f.seeded < e.serverSeq →
    f.earlier < e.serverSeq ∧ f.KnowsSender n e
  | .draw n => ∀ i, f.drawn[n]? = some i → f.synced < i.seq → f.earlierDrawn < i.seq
  | _ => True

/-- What a step owes: a command that no snapshot covers is admitted, and so is a drawing item. -/
def Followed.Admitted (f : Followed) : FollowedInput → Prop
  | .deliver n nowMs => ∀ e, f.log[n]? = some e → f.seeded < e.serverSeq →
    f.playback.Admits (stateEvent f.room e) nowMs
  | .draw n => ∀ i, f.drawn[n]? = some i → f.synced < i.seq → (f.drawing.acceptSeq i.seq).1 = true
  | _ => True

/-! ### What every step keeps -/

/-- The server's side: the room and what it has made since it started. -/
structure Followed.Serves (f : Followed) : Prop where
  bookkept : f.room.drawing.Bookkept
  logged : Logged f.room f.log
  shots : ∀ shot ∈ f.shots, ShotOf f.log shot
  items : f.drawn.Pairwise fun i j => i.seq < j.seq
  items_le : ∀ i ∈ f.drawn, i.seq ≤ f.room.drawing.seq

/-- The viewer's side: no number in its stores is above those it has seen, and its records are as of
their places. -/
structure Followed.Follows (f : Followed) : Prop where
  inRoom : f.playback.roomId = some f.room.id
  reached : max f.next f.seeded ≤ f.log.length
  bounded : f.playback.Bounded f.seen
  ordered : RecordsOrdered f.playback.dedupState
  known : ∀ u p, f.places.get u = some p → p ≤ max f.next f.seeded ∧
    ∃ d b, f.playback.dedupState.get u = some d ∧ lastOf f.log u p = some b ∧ b.monotonicSeq = d.top
  drawnTo : f.drawing.lastSeq ≤ max f.earlierDrawn f.synced ∨
    ∃ k < f.nextDrawn, ∃ i, f.drawn[k]? = some i ∧ f.drawing.lastSeq = i.seq

lemma numbered_pairwise (roomId : Uuid) (seq : ℕ) (events : List RoomEvent) :
    (numbered roomId seq events).Pairwise fun i j => i.seq < j.seq := by
  induction events generalizing seq with
  | nil => exact .nil
  | cons e events ih => exact .cons (fun j hj => (mem_numbered hj).1) (ih (seq + 1))

section Steps

variable {f f' : Followed}

/-- A server that has just started. -/
lemma Followed.Serves.fresh {room : RoomState} (hp : room.playback = .empty)
    (hd : ∃ wallMs, room.drawing = .new wallMs) (hroom : f.room = room) (hlog : f.log = [])
    (hshots : f.shots = []) (hdrawn : f.drawn = []) : f.Serves := by
  obtain ⟨wallMs, hd⟩ := hd
  refine ⟨?_, ?_, ?_, ?_, ?_⟩
  · rw [hroom, hd]
    exact .new wallMs
  · rw [hlog]
    exact logged_nil (hroom ▸ hp)
  · simp [hshots]
  · simp [hdrawn]
  · simp [hdrawn]

/-- A section of the server. -/
lemma Followed.Serves.turn (h : f.Serves) {env : SectionEnv} {store : Store} {sec : Section}
    {out : SectionOutcome sec.Reply} (hrun : sec.run env store f.room = some out) :
    (f.turned sec out).Serves := by
  obtain ⟨events, drawing, hd⟩ := Section.run_draws h.bookkept hrun
  have hlogged := h.logged.step (Section.run_playback hrun)
  have hseq := hd.drawn.seq_eq
  have hnew {i : BroadcastItem} (hi : i ∈ drawingItems out.sent) :
      f.room.drawing.seq < i.seq ∧ i.seq ≤ out.state.drawing.seq := by
    rw [hd.items_eq] at hi
    obtain ⟨hlt, hle, -⟩ := mem_numbered hi
    rw [hd.drawing_eq]
    exact ⟨hseq ▸ hlt, hle⟩
  refine ⟨?_, hlogged, fun shot hshot => ?_, ?_, fun i hi => ?_⟩
  · simp only [Followed.turned]
    rw [hd.drawing_eq]
    exact (h.bookkept.step hd.drawn.step).numbered _
  · rcases List.mem_append.1 hshot with hshot | hshot
    · exact (h.shots shot hshot).append _
    · exact hlogged.shotOf (Option.mem_toList.1 hshot)
  · refine List.pairwise_append.2 ⟨h.items, ?_, fun i hi j hj => ?_⟩
    · rw [hd.items_eq]
      exact numbered_pairwise _ _ _
    · exact (h.items_le i hi).trans_lt (hnew hj).1
  · rcases List.mem_append.1 hi with hi | hi
    · have := h.items_le i hi
      have hle : f.room.drawing.seq ≤ out.state.drawing.seq := by
        rw [hd.drawing_eq]
        dsimp only
        omega
      exact this.trans hle
    · exact (hnew hi).2

lemma Followed.Follows.turn (h : f.Follows) {env : SectionEnv} {store : Store} {sec : Section}
    {out : SectionOutcome sec.Reply} (hrun : sec.run env store f.room = some out) :
    (f.turned sec out).Follows := by
  refine ⟨?_, ?_, h.bounded, h.ordered, fun u p hp => ?_, ?_⟩
  · simp only [Followed.turned]
    rw [(Section.run_framed hrun).id]
    exact h.inRoom
  · have := h.reached
    simp only [Followed.turned, List.length_append]
    omega
  · obtain ⟨hle, d, b, hd, hb, hnum⟩ := h.known u p hp
    exact ⟨hle, d, b, hd, (lastOf_append (hle.trans h.reached) _).trans hb, hnum⟩
  · rcases h.drawnTo with hle | ⟨k, hk, i, hi, heq⟩
    · exact .inl hle
    · refine .inr ⟨k, hk, i, ?_, heq⟩
      simp only [Followed.turned]
      rw [List.getElem?_append_left (List.getElem?_eq_some_iff.1 hi).1, hi]

/-- A restart: the stores keep their numbers, and the server has none. -/
lemma Followed.Follows.restart (h : f.Follows) (room : RoomState) : (f.restarted room).Follows := by
  have hseen : (f.restarted room).seen = f.seen := by simp [Followed.seen, Followed.restarted]
  refine ⟨?_, le_rfl, ?_, ?_, fun u p hp => by simp [Followed.restarted] at hp, .inl ?_⟩
  · simp only [Followed.restarted, PlaybackStore.setRoomId]
    split
    · rfl
    · exact not_not.1 ‹_›
  · rw [hseen]
    exact h.bounded.setRoomId _
  · simp only [Followed.restarted, PlaybackStore.setRoomId]
    split
    · exact recordsOrdered_empty
    · exact h.ordered
  · simp only [Followed.restarted, DrawingStore.setRoomId]
    split
    · exact Nat.zero_le _
    · exact le_max_left _ _

/-- A step that leaves the numbers and the highest number of each record alone. -/
lemma Followed.Follows.keep (h : f.Follows) {store : PlaybackStore}
    (hroom : store.roomId = f.playback.roomId) (hb : store.Bounded f.seen)
    (ho : RecordsOrdered store.dedupState)
    (htop : ∀ u d, f.playback.dedupState.get u = some d →
      ∃ d', store.dedupState.get u = some d' ∧ d'.top = d.top) :
    ({ f with playback := store } : Followed).Follows := by
  refine ⟨hroom.trans h.inRoom, h.reached, hb, ho, fun u p hp => ?_, h.drawnTo⟩
  obtain ⟨hle, d, b, hd, hlast, hnum⟩ := h.known u p hp
  obtain ⟨d', hd', ht⟩ := htop u d hd
  exact ⟨hle, d', b, hd', hlast, hnum.trans ht.symm⟩

/-- A step that leaves the records alone. -/
lemma Followed.Follows.keep_records (h : f.Follows) {store : PlaybackStore}
    (hroom : store.roomId = f.playback.roomId) (hb : store.Bounded f.seen)
    (hd : store.dedupState = f.playback.dedupState) :
    ({ f with playback := store } : Followed).Follows :=
  h.keep hroom hb (hd ▸ h.ordered) fun _ d h => ⟨d, hd ▸ h, rfl⟩

lemma Followed.Follows.tick (h : f.Follows) (nowMs : ℤ) :
    ({ f with playback := (f.playback.tickDedup nowMs).2 } : Followed).Follows := by
  refine h.keep PlaybackStore.tickDedup_roomId (h.bounded.tickDedup nowMs) ?_ fun u d hd => ?_
  · intro u d hd
    rw [PlaybackStore.tickDedup_dedupState, AList.get_mapVals] at hd
    obtain ⟨d₀, hd₀, rfl⟩ := Option.map_eq_some_iff.1 hd
    exact (h.ordered u d₀ hd₀).ticked nowMs
  · rw [PlaybackStore.tickDedup_dedupState, AList.get_mapVals, hd]
    exact ⟨_, rfl, SenderDedupState.ticked_top nowMs d⟩

/-- The places after the store took a number of a sender: where the record has it, the log has it
there. -/
lemma Followed.Follows.placed (h : f.Follows) {store : PlaybackStore} {sender : Uuid}
    {b : PlaybackAcceptedEvent} {place reach : ℕ} (hb : lastOf f.log sender place = some b)
    (hplace : place ≤ reach) (hreach : max f.next f.seeded ≤ reach)
    (hothers : ∀ u, u ≠ sender → store.dedupState.get u = f.playback.dedupState.get u)
    (htop : ∀ d, f.playback.dedupState.get sender = some d → ∃ d',
      store.dedupState.get sender = some d' ∧ (d'.top = b.monotonicSeq ∨ d'.top = d.top)) :
    ∀ u p, (f.placed store sender b.monotonicSeq place).get u = some p → p ≤ reach ∧
      ∃ d c, store.dedupState.get u = some d ∧ lastOf f.log u p = some c ∧
        c.monotonicSeq = d.top := by
  intro u p hp
  have hold (hp : f.places.get u = some p) (htop : ∀ d, f.playback.dedupState.get u = some d →
      ∃ d', store.dedupState.get u = some d' ∧ d'.top = d.top) : p ≤ reach ∧
      ∃ d c, store.dedupState.get u = some d ∧ lastOf f.log u p = some c ∧
        c.monotonicSeq = d.top := by
    obtain ⟨hle, d, c, hd, hc, hnum⟩ := h.known u p hp
    obtain ⟨d', hd', ht⟩ := htop d hd
    exact ⟨hle.trans hreach, d', c, hd', hc, hnum.trans ht.symm⟩
  by_cases hu : u = sender
  · subst hu
    unfold Followed.placed at hp
    split at hp
    · rename_i hany
      obtain ⟨d, hd, ht⟩ := (Option.any_eq_true _ _).1 hany
      rw [AList.get_insert, if_pos rfl] at hp
      obtain rfl := Option.some.inj hp
      exact ⟨hplace, d, b, hd, hb, (of_decide_eq_true ht).symm⟩
    · rename_i hany
      refine hold hp fun d hd => ?_
      obtain ⟨d', hd', ht⟩ := htop d hd
      refine ⟨d', hd', ht.resolve_left fun ht => hany ?_⟩
      rw [hd']
      exact decide_eq_true ht
  · refine hold ?_ fun d hd => ⟨d, (hothers u hu).trans hd, rfl⟩
    unfold Followed.placed at hp
    split at hp
    · rwa [AList.get_insert, if_neg hu] at hp
    · exact hp

/-- The command at a place of the log arrives. -/
lemma Followed.Follows.deliver (h : f.Follows) (hs : f.Serves) {n : ℕ} {e : PlaybackAcceptedEvent}
    (hn : f.log[n]? = some e) (hnext : f.next ≤ n) (nowMs : ℤ) :
    (f.delivered n e nowMs).Follows := by
  have hlt := (List.getElem?_eq_some_iff.1 hn).1
  have hseq : e.serverSeq = n + 1 := hs.logged.isLog.serverSeq n e hn
  have hreached := h.reached
  have hseen : (f.delivered n e nowMs).seen = max f.seen (n + 1) := by
    simp only [Followed.seen, Followed.delivered]
    omega
  have hget (u : Uuid) : (f.playback.acceptEvent (stateEvent f.room e) nowMs).2.dedupState.get u =
      f.playback.dedupState.get u ∨ u = e.senderId ∧
        (f.playback.acceptEvent (stateEvent f.room e) nowMs).2.dedupState.get u =
          (evaluateSender (f.playback.dedupState.get e.senderId) (stateEvent f.room e) nowMs).2.or
            (f.playback.dedupState.get e.senderId) := by
    rcases @PlaybackStore.acceptEvent_dedupState f.playback (stateEvent f.room e)
      nowMs with hd | hd
    · exact .inl (by rw [hd])
    · rw [hd, evaluateDedup_get]
      by_cases hu : u = e.senderId
      · exact .inr ⟨hu, if_pos hu⟩
      · exact .inl (if_neg hu)
  have hrecord := evaluateSender_record (e := stateEvent f.room e) nowMs
    fun d hd => h.ordered e.senderId d hd
  refine ⟨PlaybackStore.acceptEvent_roomId.trans h.inRoom, ?_, ?_, fun u d hd => ?_, ?_, h.drawnTo⟩
  · simp only [Followed.delivered]
    omega
  · rw [hseen]
    exact (h.bounded.mono (le_max_left _ _)).acceptEvent (hseq ▸ le_max_right _ _) nowMs
  · rcases hget u with hu | ⟨rfl, hu⟩
    · exact h.ordered u d (hu ▸ hd)
    · have hd := hu.symm.trans hd
      rcases hout : (evaluateSender (f.playback.dedupState.get e.senderId) (stateEvent f.room e)
        nowMs).2 with _ | d'
      · rw [hout, Option.none_or] at hd
        exact h.ordered _ d hd
      · rw [hout, Option.some_or] at hd
        obtain rfl := Option.some.inj hd
        exact (hrecord d' hout).1
  · refine h.placed (b := e) (by rw [lastOf_succ hn, if_pos rfl]) (le_max_left _ _) ?_ ?_ ?_
    · simp only [Followed.delivered]
      omega
    · intro u hu
      exact (hget u).resolve_right fun h => hu h.1
    · intro d hd
      rcases hget e.senderId with hu | ⟨-, hu⟩
      · exact ⟨d, hu.trans hd, .inr rfl⟩
      · rcases hout : (evaluateSender (f.playback.dedupState.get e.senderId) (stateEvent f.room e)
          nowMs).2 with _ | d'
        · rw [hout, Option.none_or] at hu
          exact ⟨d, hu.trans hd, .inr rfl⟩
        · rw [hout, Option.some_or] at hu
          refine ⟨d', hu, ?_⟩
          rcases (hrecord d' hout).2 with ht | ⟨d₀, hd₀, ht⟩
          · exact .inl ht
          · rw [Option.mem_def, hd] at hd₀
            obtain rfl := Option.some.inj hd₀
            exact .inr ht

/-- A room summary arrives. -/
lemma Followed.Follows.seed (h : f.Follows) {shot : PlaybackSnapshot} (hshot : ShotOf f.log shot)
    (nowMs : ℤ) : (f.seededBy shot nowMs).Follows := by
  obtain ⟨n, e, hn, hseq, hsender, hnum⟩ := hshot
  have hlt := (List.getElem?_eq_some_iff.1 hn).1
  have hreached := h.reached
  unfold Followed.seededBy
  dsimp only
  split
  swap
  · exact h
  rename_i hout
  have hstore : (f.playback.seedFromSnapshot f.room.id shot nowMs).2.dedupState =
      f.playback.dedupState.insert shot.senderId
        ⟨max (((f.playback.dedupState.get shot.senderId).map (·.lastAppliedSeq)).getD 0)
          shot.monotonicSeq, none⟩ ∧
      ∀ d, f.playback.dedupState.get shot.senderId = some d → d.pending = none := by
    unfold PlaybackStore.seedFromSnapshot at hout ⊢
    split at hout
    · rename_i hseeds
      rw [if_pos hseeds]
      refine ⟨PlaybackStore.put_dedupState _ _ _, fun d hd => ?_⟩
      simp only [PlaybackStore.seeds, Bool.and_eq_true, hd, Option.all_some] at hseeds
      exact Option.isNone_iff_eq_none.1 hseeds.2
    · cases hout
  obtain ⟨hdedup, hidle⟩ := hstore
  refine ⟨PlaybackStore.seedFromSnapshot_roomId.trans h.inRoom, ?_, ?_, ?_, ?_, h.drawnTo⟩
  · dsimp only
    omega
  · refine (h.bounded.mono ?_).seedFromSnapshot _ ?_ nowMs
    · simp only [Followed.seen]
      omega
    · simp only [Followed.seen]
      omega
  · rw [hdedup]
    exact h.ordered.insert _ (SenderDedupState.ordered_idle _)
  · rw [hnum]
    refine h.placed (b := e) ?_ ?_ ?_ ?_ ?_
    · rw [hseq, lastOf_succ hn, if_pos hsender.symm]
    · dsimp only
      omega
    · dsimp only
      omega
    · intro u hu
      rw [hdedup, AList.get_insert, if_neg hu]
    · intro d hd
      rw [hdedup, AList.get_insert, if_pos rfl]
      refine ⟨_, rfl, ?_⟩
      have htop : d.top = d.lastAppliedSeq := by simp [SenderDedupState.top, hidle d hd]
      rw [SenderDedupState.top_idle, hd, htop, hnum, Option.map_some, Option.getD_some]
      omega

/-- A drawing item arrives. -/
lemma Followed.Follows.draw (h : f.Follows) {n : ℕ} {i : BroadcastItem}
    (hn : f.drawn[n]? = some i) (hnext : f.nextDrawn ≤ n) :
    ({ f with drawing := (f.drawing.receive i).2, nextDrawn := n + 1 } : Followed).Follows := by
  refine ⟨h.inRoom, h.reached, h.bounded, h.ordered, h.known, ?_⟩
  rcases DrawingStore.receive_lastSeq i f.drawing with heq | heq
  · dsimp only
    rw [heq]
    rcases h.drawnTo with hle | ⟨k, hk, j, hj, hseq⟩
    · exact .inl hle
    · exact .inr ⟨k, by omega, j, hj, hseq⟩
  · exact .inr ⟨n, Nat.lt_succ_self n, i, hn, heq⟩

/-- A `DRAW_SYNC` arrives. -/
lemma Followed.Follows.sync (h : f.Follows) (snapshot : StrokeSyncPayload)
    (localIds : Finset Uuid) :
    ({ f with
      drawing := f.drawing.sync f.room.id snapshot localIds
      synced := max f.synced snapshot.seq } : Followed).Follows := by
  refine ⟨h.inRoom, h.reached, h.bounded, h.ordered, h.known, ?_⟩
  have hle : (f.drawing.sync f.room.id snapshot localIds).lastSeq = f.drawing.lastSeq ∨
      (f.drawing.sync f.room.id snapshot localIds).lastSeq =
        max f.drawing.lastSeq snapshot.seq := by
    unfold DrawingStore.sync
    split
    · exact .inl rfl
    · exact .inr rfl
  dsimp only
  rcases h.drawnTo with hold | ⟨k, hk, i, hi, heq⟩
  · exact .inl (by omega)
  · by_cases hnew : (f.drawing.sync f.room.id snapshot localIds).lastSeq = f.drawing.lastSeq
    · exact .inr ⟨k, hk, i, hi, hnew.trans heq⟩
    · exact .inl (by omega)

/-- **Steps.** Every step keeps both sides, whatever it is. -/
lemma Followed.step (hs : f.Serves) (h : f.Follows) {i : FollowedInput}
    (hi : followed f i = some f') :
    f'.Serves ∧ f'.Follows := by
  have hviewer {store : PlaybackStore} : ({ f with playback := store } : Followed).Serves :=
    ⟨hs.bookkept, hs.logged, hs.shots, hs.items, hs.items_le⟩
  cases i with
  | turn env store sec =>
    obtain ⟨out, hrun, rfl⟩ := Option.map_eq_some_iff.1 hi
    exact ⟨hs.turn hrun, h.turn hrun⟩
  | restart row participants wallMs =>
    simp only [followed] at hi
    split at hi
    · cases hi
      exact ⟨.fresh rfl ⟨wallMs, rfl⟩ rfl rfl rfl rfl,
        h.restart _⟩
    · cases hi
  | deliver n nowMs =>
    obtain ⟨e, hn, hi⟩ := Option.bind_eq_some_iff.1 hi
    split at hi
    · cases hi
    · rename_i hnext
      cases hi
      exact ⟨⟨hs.bookkept, hs.logged, hs.shots, hs.items, hs.items_le⟩,
        h.deliver hs hn (not_lt.1 hnext) nowMs⟩
  | seed k nowMs =>
    obtain ⟨shot, hk, rfl⟩ := Option.map_eq_some_iff.1 hi
    refine ⟨?_, h.seed (hs.shots shot (List.mem_of_getElem? hk)) nowMs⟩
    unfold Followed.seededBy
    dsimp only
    split
    · exact ⟨hs.bookkept, hs.logged, hs.shots, hs.items, hs.items_le⟩
    · exact hs
  | draw n =>
    obtain ⟨i, hn, hi⟩ := Option.bind_eq_some_iff.1 hi
    split at hi
    · cases hi
    · rename_i hnext
      cases hi
      exact ⟨⟨hs.bookkept, hs.logged, hs.shots, hs.items, hs.items_le⟩,
        h.draw hn (not_lt.1 hnext)⟩
  | sync k localIds =>
    obtain ⟨snapshot, hk, rfl⟩ := Option.map_eq_some_iff.1 hi
    exact ⟨⟨hs.bookkept, hs.logged, hs.shots, hs.items, hs.items_le⟩, h.sync snapshot localIds⟩
  | tick nowMs =>
    cases hi
    exact ⟨hviewer, h.tick nowMs⟩
  | mediaReady ready =>
    cases hi
    exact ⟨hviewer, h.keep_records rfl
      ⟨h.bounded.mark, h.bounded.applied, h.bounded.pending, h.bounded.parked⟩ rfl⟩
  | promote =>
    cases hi
    exact ⟨hviewer, h.keep_records PlaybackStore.promote_roomId h.bounded.promote
      PlaybackStore.promote_dedupState⟩
  | markApplied n =>
    cases hi
    exact ⟨hviewer, h.keep_records (PlaybackStore.markApplied_roomId n) (h.bounded.markApplied n)
      (PlaybackStore.markApplied_dedupState n)⟩
  | recordHostCommand e =>
    cases hi
    exact ⟨hviewer, h.keep_records PlaybackStore.recordHostCommand_roomId
      (h.bounded.recordHostCommand e) PlaybackStore.recordHostCommand_dedupState⟩

/-- **Admission.** Where both sides hold, a step within the condition admits what it brings. -/
lemma Followed.Follows.admitted (h : f.Follows) (hs : f.Serves) {i : FollowedInput}
    (hg : InStep f i) (hi : followed f i = some f') : f.Admitted i := by
  cases i with
  | deliver n nowMs =>
    intro e hn hnew
    obtain ⟨e', hn', hi⟩ := Option.bind_eq_some_iff.1 hi
    obtain rfl := Option.some.inj (hn'.symm.trans hn)
    have hnext : f.next ≤ n := by
      by_contra hlt
      rw [if_pos (not_le.1 hlt)] at hi
      cases hi
    obtain ⟨hearlier, hknows⟩ := hg e' hn hnew
    have hlog := hs.logged.isLog
    have hseq : e'.serverSeq = n + 1 := hlog.serverSeq n e' hn
    have hpos : 0 < e'.monotonicSeq := (hlog.number_bounds hn).1
    have hseen : f.seen < e'.serverSeq := by
      simp only [Followed.seen]
      omega
    refine PlaybackStore.admits_of_above nowMs h.inRoom h.bounded hseen h.ordered hpos
      fun d hd => ?_
    rcases hknows d hd with hover | ⟨p, hp, hsame⟩
    · exact .inr hover
    obtain ⟨hle, d', b, hd', hb, hnum⟩ := h.known _ p hp
    obtain rfl := Option.some.inj (hd'.symm.trans hd)
    exact .inl (hnum ▸ hlog.number_lt hb (by omega) hn rfl hsame)
  | draw n =>
    intro i hn hnew
    obtain ⟨i', hn', hi⟩ := Option.bind_eq_some_iff.1 hi
    obtain rfl := Option.some.inj (hn'.symm.trans hn)
    have hnext : f.nextDrawn ≤ n := by
      by_contra hlt
      rw [if_pos (not_le.1 hlt)] at hi
      cases hi
    have hearlier := hg i' hn hnew
    have hlt : f.drawing.lastSeq < i'.seq := by
      rcases h.drawnTo with hle | ⟨k, hk, j, hj, heq⟩
      · omega
      · obtain ⟨hkl, hj⟩ := List.getElem?_eq_some_iff.1 hj
        obtain ⟨hnl, hn⟩ := List.getElem?_eq_some_iff.1 hn
        have := List.pairwise_iff_getElem.1 hs.items k n hkl hnl (by omega)
        rw [hj, hn] at this
        omega
    rcases DrawingStore.acceptSeq_cases i'.seq f.drawing with ⟨h, -⟩ | ⟨-, hle⟩ | ⟨h, -⟩
    · rw [h]
    · omega
    · rw [h]
  | _ => trivial

end Steps

/-- A room that was just created, and a viewer that has entered it. -/
lemma follows_start (room : RoomState) (ready : Bool) : (Followed.start room ready).Follows := by
  refine ⟨rfl, le_rfl, PlaybackStore.bounded_initial _ _, recordsOrdered_empty,
    fun u p hp => ?_, ?_⟩
  · simp [Followed.start] at hp
  · refine .inl ?_
    simp [Followed.start, DrawingStore.initial, DrawingStore.setRoomId]

variable {id host : Uuid} {code title : String} {pubkey : PubKey} {migration : Bool} {createdMs : ℤ}
  {capSet : BitVec 32} {wallMs : ℕ} {ready : Bool} {f f' : Followed}

/-- **New commands are admitted across restarts.** In every run, a command or drawing item that
reaches the viewer and that no snapshot covers is admitted, if its number is above what the viewer
got from earlier servers and, for a command, its sender has not started over since the command the
viewer's record is as of. -/
theorem restart_admits
    (r : followed.Reaches Machine.free
      (.start (.new id code title host pubkey migration createdMs capSet wallMs) ready) f)
    {i : FollowedInput} (hg : InStep f i) (hi : followed f i = some f') : f.Admitted i := by
  have hinv : f.Serves ∧ f.Follows := by
    refine r.invariant ⟨?_, follows_start _ ready⟩ fun s i s' hs _ hi => Followed.step hs.1 hs.2 hi
    exact .fresh rfl ⟨wallMs, rfl⟩ rfl rfl rfl rfl
  exact hinv.2.admitted hinv.1 hg hi

/-! ### A restart while a film plays -/

namespace Restart

/-- The host presses play, with the first number of a server it has not sent to. -/
def play : FollowedInput :=
  .turn Crowded.env Crowded.store (.playbackCmd 7 Crowded.key ⟨.play, 1, 0, 0⟩)

def row : RoomRow where
  id := 1
  code := "ABCDEF"
  title := "t"
  hostUserId := 7
  hostPubkey := Crowded.key
  hostMigrationEnabled := true
  state := .open
  hostDisconnectDeadlineMs := none
  createdMs := 0
  endedMs := none

def hostRow : RoomParticipantRow where
  pubkey := Crowded.key
  displayName := ""
  isHost := true
  joinedMs := 0
  leftMs := none
  lastSeenMs := 0
  status := .connected
  capSet := Cap.host

def restart : FollowedInput := .restart row [(7, hostRow)] 0

/-- The first command of the log is one the viewer's store refuses. -/
def refusesFirst (f : Followed) : Bool :=
  (f.log[0]?).any fun e => decide (f.seeded < e.serverSeq ∧ f.next = 0) &&
    !(f.playback.acceptEvent (stateEvent f.room e) 1).1

/-- A viewer that has applied the first command refuses the first one of the restarted server. -/
theorem not_restart_admits : ∃ f, followed.Reaches Machine.free (.start Crowded.start true) f ∧
    ∃ i f', followed f i = some f' ∧ ¬f.Admitted i := by
  refine Machine.exists_reaches_of_play [play, .deliver 0 0, .markApplied 1, restart, play]
    refusesFirst ?_ (by decide)
  intro f hf
  obtain ⟨e, he, hf⟩ := (Option.any_eq_true _ _).1 hf
  rw [Bool.and_eq_true, decide_eq_true_eq, Bool.not_eq_true'] at hf
  obtain ⟨⟨hnew, hnext⟩, hrefused⟩ := hf
  refine ⟨.deliver 0 1, f.delivered 0 e 1, ?_, fun h => ?_⟩
  · simp [followed, he, hnext]
  · have := (h e he hnew).accepted
    rw [hrefused] at this
    cases this

/-- A guest who may control the playback. -/
def guestRow : RoomParticipantRow := { hostRow with isHost := false }

def command (userId : Uuid) (n : ℕ) (action : PlaybackAction) : FollowedInput :=
  .turn Crowded.env Crowded.store (.playbackCmd userId Crowded.key ⟨action, n, 0, 0⟩)

def stroke (n : ℕ) : FollowedInput := .turn Crowded.env Crowded.store (Crowded.begin n)

def back (userId : Uuid) : FollowedInput :=
  .turn Crowded.env Crowded.store (.rejoin userId Crowded.key 0)

/-- The viewer gets two commands and a stroke of the host and applies them; then the server
restarts, the guest sends two commands, and the host one command and a stroke. -/
def marked : List FollowedInput :=
  [command 7 1 .play, command 7 2 .pause, stroke 0, .deliver 0 0, .markApplied 1, .deliver 1 0,
    .markApplied 2, .draw 0, .restart row [(7, hostRow), (8, guestRow)] 5, back 7, back 8,
    command 8 1 .play, command 8 2 .pause, command 7 1 .play, stroke 1]

/-- The viewer has its marks of the first server, and nothing of the second. -/
structure Marked (f : Followed) : Prop where
  log : f.log.map (fun e => (e.senderId, e.serverSeq, e.monotonicSeq)) =
    [(8, 1, 1), (8, 2, 2), (7, 3, 1)]
  drawn : f.drawn.map (·.seq) = [5001]
  playbackMark : f.playback.lastAppliedServerSeq = 2
  drawingMark : f.drawing.lastSeq = 1
  record : f.playback.dedupState.get 7 = some ⟨2, none⟩
  earlier : f.earlier = 2 ∧ f.earlierDrawn = 1
  fresh : f.next = 0 ∧ f.nextDrawn = 0

instance (f : Followed) : Decidable (Marked f) :=
  decidable_of_iff (_ ∧ _ ∧ _ ∧ _ ∧ _ ∧ _ ∧ _)
    ⟨fun ⟨h₁, h₂, h₃, h₄, h₅, h₆, h₇⟩ => ⟨h₁, h₂, h₃, h₄, h₅, h₆, h₇⟩,
      fun ⟨h₁, h₂, h₃, h₄, h₅, h₆, h₇⟩ => ⟨h₁, h₂, h₃, h₄, h₅, h₆, h₇⟩⟩

/-- A viewer with marks of both kinds admits the third command of the restarted server, which starts
the host's numbers over, and its first stroke. -/
theorem restart_admits_marked :
    ∃ f, followed.Reaches Machine.free (.start Crowded.start true) f ∧ Marked f ∧
      f.Admitted (.deliver 2 0) ∧ f.Admitted (.draw 0) := by
  have hplay : (followed.play Machine.free (.start Crowded.start true) marked).any
      (fun f => decide (Marked f)) = true := by decide
  obtain ⟨f, r, hm⟩ := Machine.exists_reaches_of_play marked (fun f => decide (Marked f))
    (fun _ => of_decide_eq_true) hplay
  obtain ⟨e, hlog, he⟩ : ∃ e, f.log[2]? = some e ∧
      (e.senderId, e.serverSeq, e.monotonicSeq) = (7, 3, 1) := by
    have hget := congrArg (·[2]?) hm.log
    simp only [List.getElem?_map] at hget
    exact Option.map_eq_some_iff.1 hget
  obtain ⟨i, hdrawn, hseq⟩ := List.map_eq_singleton_iff.1 hm.drawn
  simp only [Prod.mk.injEq] at he
  obtain ⟨hsender, hnumber, hmono⟩ := he
  have hplayed : followed f (.deliver 2 0) = some (f.delivered 2 e 0) := by
    simp [followed, hlog, hm.fresh.1]
  have hpainted : followed f (.draw 0) =
      some { f with drawing := (f.drawing.receive i).2, nextDrawn := 1 } := by
    simp [followed, hdrawn, hm.fresh.2]
  refine ⟨f, r, hm, restart_admits r ?_ hplayed, restart_admits r ?_ hpainted⟩
  · intro e' he' hnew
    obtain rfl : e = e' := Option.some.inj (hlog.symm.trans he')
    refine ⟨by rw [hm.earlier.1, hnumber]; decide, fun d hd => .inl ⟨hmono, ?_⟩⟩
    obtain rfl := Option.some.inj (hm.record.symm.trans (hsender ▸ hd))
    exact .inl (by decide)
  · intro i' hi' hnew
    obtain rfl : i = i' := by simpa [hdrawn] using hi'
    rw [hm.earlier.2, hseq]
    decide

end Restart

end Locast.Client
