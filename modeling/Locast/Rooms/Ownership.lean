import Locast.Rooms.Canvas

/-!
# Who owns a stroke

The room keeps a stroke's owner in three maps: with the open strokes, with the committed ones and
with the content.  The sections of a room's life say who the owner ought to be: the user whose
`DRAW_BEGIN` was accepted, until the stroke is undone, cleared or forgotten (`strokeOwner`).
`StrokeStep` says what one call can do to one stroke; the three maps agree with the history since
every step does.
-/

namespace Locast.Rooms

open Locast.Lib Locast.Protocol StrokeBookkeeping

/-! ### The owner according to the history -/

/-- The user whose `DRAW_BEGIN` of this stroke is accepted: it is signed by its sender, and the room
does not hold the stroke. -/
def DrawingCall.begins (verify : VerifyStroke) (state : RoomState) (id : Uuid) :
    DrawingCall → Option Uuid
  | .begin envelope (.ok payload) userId pubkey _ =>
    if payload.strokeId = id ∧
        strokeBeginError verify envelope state userId pubkey payload = none then some userId
    else none
  | _ => none

/-- The call removes a stroke of `owner`: an undo of a committed stroke by a user who may, or a
clear by a user who may. -/
def DrawingCall.removes (state : RoomState) (id owner : Uuid) : DrawingCall → Bool
  | .undo _ (.ok payload) userId =>
    payload.strokeId == id && decide (id ∈ state.drawing.committed) && mayUndo state userId owner
  | .clear userId => state.presentCan userId .drawing .clearAll
  | _ => false

/-- It is the oldest of as many committed strokes as the room holds. -/
def StrokeBookkeeping.nextOut (s : StrokeBookkeeping) (id : Uuid) : Bool :=
  s.committedOrder.length == maxCommittedStrokes && s.committedOrder.head? == some id

/-- The user whose `DRAW_BEGIN` of this stroke the section accepts. -/
def Turn.begins (t : Turn) (id : Uuid) : Option Uuid :=
  t.call.begins t.env.crates.verifyStroke t.before id

/-- The section removes a stroke of `owner`: an accepted undo or clear, or a commit beyond the
cap. -/
def Turn.removes (t : Turn) (id owner : Uuid) : Bool :=
  t.call.removes t.before id owner || (t.commits && t.before.drawing.nextOut id)

/-- The owner of a stroke after these sections. -/
def strokeOwner (id : Uuid) (turns : List Turn) : Option Uuid :=
  turns.foldl (fun owner t => (t.begins id).or (owner.filter fun u => !t.removes id u)) none

@[simp] lemma strokeOwner_append (id : Uuid) (turns : List Turn) (t : Turn) :
    strokeOwner id (turns ++ [t]) =
      (t.begins id).or ((strokeOwner id turns).filter fun u => !t.removes id u) := by
  simp [strokeOwner]

/-! ### One stroke through one call -/

/-- The call, with the events it makes, takes a stroke from its owner. -/
def DrawingCall.takes (call : DrawingCall) (state : RoomState) (events : List RoomEvent)
    (id owner : Uuid) : Bool :=
  call.removes state id owner || (events.any RoomEvent.isEnd && state.drawing.nextOut id)

/-- The holder of a stroke and the content kept of it. -/
abbrev StrokeRecord : Type := Option (Uuid × Bool) × Option StrokeContent

/-- The record the room has of a stroke. -/
def StrokeBookkeeping.recordOf (s : StrokeBookkeeping) (id : Uuid) : StrokeRecord :=
  (s.holder id, s.content.get id)

/-- The points of a content are freed. -/
def freeContent (c : StrokeContent) : StrokeContent := { c with points := [], dropped := true }

/-- The content of a stroke ends. -/
def endContent (tsMs : ℤ) (c : StrokeContent) : StrokeContent := { c with endTsMs := some tsMs }

/-- What a call can do to the record of one stroke. -/
inductive StrokeStep (verify : VerifyStroke) (state : RoomState) (call : DrawingCall)
    (events : List RoomEvent) (id : Uuid) : StrokeRecord → StrokeRecord → Prop
  | idle (r : StrokeRecord) (hb : call.begins verify state id = none)
      (ht : ∀ x, r.1 = some x → call.takes state events id x.1 = false) :
      StrokeStep verify state call events id r r
  | freed (r : StrokeRecord) (hb : call.begins verify state id = none)
      (ht : ∀ x, r.1 = some x → call.takes state events id x.1 = false) :
      StrokeStep verify state call events id r (r.1, r.2.map freeContent)
  | begun (c : Option StrokeContent) (payload : StrokeBeginPayload) (userId : Uuid)
      (hb : call.begins verify state id = some userId) :
      StrokeStep verify state call events id (none, c)
        (some (userId, false), some (beginContent userId payload))
  | pointed (c : StrokeContent) (envelope : Envelope) (point : StrokePointPayload) (userId : Uuid)
      (hcall : call = .point envelope (.ok point) userId) (hid : point.strokeId = id)
      (ht : call.takes state events id userId = false) :
      StrokeStep verify state call events id (some (userId, false), some c)
        (some (userId, false), some { c with points := c.points ++ [syncPoint point] })
  | ended (c : Option StrokeContent) (roomId userId : Uuid) (payload : StrokeEndPayload)
      (hb : call.begins verify state id = none) (ht : call.takes state events id userId = false)
      (he : .strokeEnd roomId userId payload ∈ events) (hid : payload.strokeId = id) :
      StrokeStep verify state call events id (some (userId, false), c)
        (some (userId, true), c.map (endContent payload.tsMs))
  | taken (r : StrokeRecord) (hb : call.begins verify state id = none)
      (ht : ∀ x, r.1 = some x → call.takes state events id x.1 = true) :
      StrokeStep verify state call events id r (none, none)

namespace StrokeBookkeeping

variable {s s' : StrokeBookkeeping}

/-- What the end of a stroke does to the record of any stroke. -/
lemma Ends.recordOf (hb : s.Bookkept) {id owner : Uuid} {tsMs : ℤ} (he : s.Ends id owner tsMs s')
    (k : Uuid) :
    s'.recordOf k = if k = id then (some (owner, true), (s.content.get id).map (endContent tsMs))
      else if s.nextOut k then (none, none) else s.recordOf k := by
  obtain ⟨t, gone, hc, rfl⟩ := he
  obtain ⟨hpending, hcommitted, -⟩ := recordEnd_frame t id tsMs
  have horder : (s.closed id).committedOrder = s.committedOrder := rfl
  by_cases hk : k = id
  · subst hk
    have hget : (t.recordEnd k tsMs).committed.get k = some owner := by
      rw [hcommitted, hc.committed_get, if_neg hc.not_gone, if_pos rfl]
    have hcontent : t.content.get k = s.content.get k := by
      rw [hc.content_get, if_neg hc.not_gone]
      rfl
    rw [if_pos rfl, StrokeBookkeeping.recordOf, holder_of_committed hget, recordEnd_content,
      if_pos rfl, hcontent]
    rfl
  · rw [if_neg hk]
    have hpend : (t.recordEnd id tsMs).pending.get k = s.pending.get k := by
      rw [hpending, hc.pending_eq, closed, AList.get_erase, if_neg hk]
    by_cases hgone : k ∈ gone
    · obtain ⟨hhead, hfull⟩ := hc.full k hgone
      rw [horder] at hhead hfull
      rw [if_pos (by simp [nextOut, hhead, hfull])]
      have hkept : k ∈ s.committed :=
        (hb.ordered.mem_iff k).1 (List.mem_of_mem_head? hhead)
      have hnot : (t.recordEnd id tsMs).pending.get k = none := by
        rw [hpend]
        exact AList.get_eq_none.2 fun hp => hb.not_committed_of_pending k hp hkept
      simp [StrokeBookkeeping.recordOf, holder, hcommitted, hc.committed_get, hgone, hnot,
        recordEnd_content, hk, hc.content_get]
    · have hstays : s.nextOut k = false := by
        by_contra hout
        simp only [nextOut, Bool.not_eq_false, Bool.and_eq_true, beq_iff_eq] at hout
        obtain ⟨hfull, hhead⟩ := hout
        -- beyond the cap something is forgotten, and that is the head of the order
        have hlen := congrArg List.length hc.order_eq
        have hle := hc.ordered.length_le
        simp only [horder, List.length_append, List.length_singleton] at hlen
        have hpos : 0 < gone.length := by omega
        obtain ⟨x, hx⟩ := List.exists_mem_of_length_pos hpos
        have hxhead := (hc.full x hx).1
        rw [horder, hhead] at hxhead
        exact hgone (Option.some.inj hxhead ▸ hx)
      rw [if_neg (by simp [hstays])]
      have hcom : (t.recordEnd id tsMs).committed.get k = s.committed.get k := by
        rw [hcommitted, hc.committed_get, if_neg hgone, if_neg hk]
        rfl
      have hcontent : (t.recordEnd id tsMs).content.get k = s.content.get k := by
        rw [recordEnd_content, if_neg hk, hc.content_get, if_neg hgone]
        rfl
      rw [StrokeBookkeeping.recordOf, holder_congr hcom hpend, hcontent]
      rfl

lemma recordOf_freed (id k : Uuid) : (s.freed id).recordOf k =
    if k = id then ((s.recordOf k).1, (s.recordOf k).2.map freeContent) else s.recordOf k := by
  rw [StrokeBookkeeping.recordOf, holder_congr (s := s) (by simp) (by simp), freed_get]
  split
  · rename_i hk
    rw [hk]
    rfl
  · rfl

lemma recordOf_appended (point : StrokePointPayload) (c : StrokeContent) (k : Uuid) :
    (s.appended point c).recordOf k = if k = point.strokeId then
      ((s.recordOf k).1, some { c with points := c.points ++ [syncPoint point] })
    else s.recordOf k := by
  have hholder : (s.appended point c).holder k = s.holder k := holder_congr rfl rfl
  rw [StrokeBookkeeping.recordOf, hholder, StrokeBookkeeping.appended, AList.get_insert]
  split <;> rfl

/-- What a kept point does to the record of any stroke. -/
lemma KeepsPoint.recordOf {point : StrokePointPayload} (hk : s.KeepsPoint point s') (k : Uuid) :
    s'.recordOf k = s.recordOf k ∨
      s'.recordOf k = ((s.recordOf k).1, (s.recordOf k).2.map freeContent) ∨
      point.strokeId = k ∧ ∃ c, s.content.get k = some c ∧
        s'.recordOf k =
          ((s.recordOf k).1, some { c with points := c.points ++ [syncPoint point] }) := by
  cases hk with
  | unkept => exact .inl rfl
  | atLimit =>
    rw [recordOf_freed]
    split
    · exact .inr (.inl rfl)
    · exact .inl rfl
  | append c hc =>
    rw [recordOf_appended]
    split
    · rename_i hk
      exact .inr (.inr ⟨hk.symm, c, hk ▸ hc, rfl⟩)
    · exact .inl rfl
  | evict c hc hd hlen hfull victim hv hne =>
    have hqueue (queue : List Uuid) :
        StrokeBookkeeping.recordOf { s.freed victim with evictOrder := queue } k =
          (s.freed victim).recordOf k := rfl
    rw [recordOf_appended, hqueue, recordOf_freed]
    by_cases hk : k = point.strokeId
    · rw [if_pos hk, if_neg (hk ▸ hne)]
      exact .inr (.inr ⟨hk.symm, c, hk ▸ hc, rfl⟩)
    · rw [if_neg hk]
      split
      · exact .inr (.inl rfl)
      · exact .inl rfl
  | giveUp =>
    have hqueue : StrokeBookkeeping.recordOf { s with evictOrder := [] } k = s.recordOf k := rfl
    rw [recordOf_freed, hqueue]
    split
    · exact .inr (.inl rfl)
    · exact .inl rfl

lemma recordOf_absent {id : Uuid} (hp : id ∉ s.pending) (hc : id ∉ s.committed) :
    s.recordOf id = (none, s.content.get id) := by
  rw [StrokeBookkeeping.recordOf, holder_of_absent hp hc]

lemma recordOf_open (hb : s.Bookkept) {id : Uuid} {p : PendingStroke}
    (hp : s.pending.get id = some p) (hcl : p.cleared = false) :
    s.recordOf id = (some (p.senderId, false), s.content.get id) := by
  rw [StrokeBookkeeping.recordOf, holder_of_pending hb hp, hcl]
  rfl

/-- The end of a stroke that was cleared while open. -/
lemma recordOf_closed_forgotten (hb : s.Bookkept) {id : Uuid} {p : PendingStroke}
    (hp : s.pending.get id = some p) (hcl : p.cleared = true) (k : Uuid) :
    ((s.closed id).forgotten id).recordOf k = s.recordOf k ∨
      (s.recordOf k).1 = none ∧ ((s.closed id).forgotten id).recordOf k = (none, none) := by
  by_cases hk : k = id
  · subst hk
    right
    have hc : k ∉ ((s.closed k).forgotten k).committed :=
      hb.not_committed_of_pending k (AList.mem_of_get hp)
    have hpend : k ∉ ((s.closed k).forgotten k).pending := fun h => (AList.mem_erase.1 h).1 rfl
    rw [recordOf_absent hpend hc, StrokeBookkeeping.recordOf, holder_of_pending hb hp, hcl]
    exact ⟨rfl, by simp [forgotten, AList.get_erase]⟩
  · left
    have hholder : ((s.closed id).forgotten id).holder k = s.holder k :=
      holder_congr rfl (by simp [forgotten, closed, AList.get_erase, hk])
    rw [StrokeBookkeeping.recordOf, hholder, StrokeBookkeeping.recordOf]
    simp [forgotten, closed, AList.get_erase, hk]

lemma recordOf_opened {stroke : PendingStroke} {begin : StrokeBeginPayload}
    (hcl : stroke.cleared = false) (hc : begin.strokeId ∉ s.committed) (k : Uuid) :
    (s.opened stroke begin).recordOf k = if k = begin.strokeId then
      (some (stroke.senderId, false), some (beginContent stroke.senderId begin))
    else s.recordOf k := by
  split
  · rename_i hk
    subst hk
    simp [StrokeBookkeeping.recordOf, holder, StrokeBookkeeping.opened, AList.get_eq_none.2 hc, hcl]
  · rename_i hk
    have hholder : (s.opened stroke begin).holder k = s.holder k :=
      holder_congr rfl (by simp [StrokeBookkeeping.opened, AList.get_insert, hk])
    rw [StrokeBookkeeping.recordOf, hholder, StrokeBookkeeping.recordOf]
    simp [StrokeBookkeeping.opened, AList.get_insert, AList.get_erase, hk]

lemma recordOf_undone (hb : s.Bookkept) {id : Uuid} (hc : id ∈ s.committed) (k : Uuid) :
    (s.undone id).recordOf k = if k = id then (none, none) else s.recordOf k := by
  split
  · rename_i hk
    subst hk
    have hpend : k ∉ (s.undone k).pending := fun h => hb.not_committed_of_pending k h hc
    rw [recordOf_absent hpend fun h => (AList.mem_erase.1 h).1 rfl]
    simp [StrokeBookkeeping.undone, AList.get_erase]
  · rename_i hk
    have hholder : (s.undone id).holder k = s.holder k :=
      holder_congr (by simp [StrokeBookkeeping.undone, AList.get_erase, hk]) rfl
    rw [StrokeBookkeeping.recordOf, hholder, StrokeBookkeeping.recordOf]
    simp [StrokeBookkeeping.undone, AList.get_erase, hk]

lemma recordOf_clearAll (k : Uuid) : s.clearAll.2.recordOf k = (none, none) := by
  simp only [StrokeBookkeeping.recordOf, holder, clearAll, AList.get_empty, AList.get_mapVals]
  cases s.pending.get k <;> simp

end StrokeBookkeeping

section StrokeStep

variable {verify : VerifyStroke} {state : RoomState} {call : DrawingCall} {events : List RoomEvent}
  {drawing : StrokeBookkeeping}

/-- A call that is not accepted begins and takes no stroke. -/
lemma DrawingCall.keeps_of_not_accepted (h : call.accepted verify state = false) (id : Uuid) :
    call.begins verify state id = none ∧
      ∀ x, state.drawing.holder id = some x → call.removes state id x.1 = false := by
  constructor
  · cases call with
    | begin envelope decoded userId pubkey nowMs =>
      cases decoded with
      | error => rfl
      | ok payload =>
        refine if_neg fun hbegin => ?_
        rw [accepted, hbegin.2] at h
        cases h
    | _ => rfl
  · intro x hx
    cases call with
    | undo envelope decoded userId =>
      cases decoded with
      | error => rfl
      | ok payload =>
        by_contra hremoves
        simp only [removes, Bool.not_eq_false, Bool.and_eq_true, beq_iff_eq, decide_eq_true_eq]
          at hremoves
        obtain ⟨⟨rfl, hc⟩, hmay⟩ := hremoves
        obtain ⟨owner, howner⟩ := AList.exists_get hc
        rw [holder_of_committed howner] at hx
        cases hx
        simp [accepted, ownerOf, howner, hmay] at h
    | clear userId => exact h
    | _ => rfl

/-- A stroke that ends, by its owner or to make room for another one. -/
lemma StrokeStep.of_ends (hb : state.drawing.Bookkept) {id : Uuid} {p : PendingStroke}
    (hp : state.drawing.pending.get id = some p) (hcl : p.cleared = false) {tsMs : ℤ}
    (he : state.drawing.Ends id p.senderId tsMs drawing) {k : Uuid}
    (hbegins : call.begins verify state k = none)
    (hremoves : ∀ owner, call.removes state k owner = false) {roomId : Uuid}
    (hmem : .strokeEnd roomId p.senderId ⟨id, tsMs⟩ ∈ events) :
    StrokeStep verify state call events k (state.drawing.recordOf k) (drawing.recordOf k) := by
  have hend : events.any RoomEvent.isEnd = true := List.any_eq_true.2 ⟨_, hmem, rfl⟩
  have htakes (owner : Uuid) : call.takes state events k owner = state.drawing.nextOut k := by
    rw [DrawingCall.takes, hremoves, hend, Bool.false_or, Bool.true_and]
  rw [he.recordOf hb]
  by_cases hk : k = id
  · subst hk
    rw [if_pos rfl, recordOf_open hb hp hcl]
    refine .ended _ roomId p.senderId ⟨k, tsMs⟩ hbegins ?_ hmem rfl
    rw [htakes]
    by_contra hout
    simp only [nextOut, Bool.not_eq_false, Bool.and_eq_true, beq_iff_eq] at hout
    exact hb.not_committed_of_pending k (AList.mem_of_get hp)
      ((hb.ordered.mem_iff k).1 (List.mem_of_mem_head? hout.2))
  · rw [if_neg hk]
    by_cases hout : state.drawing.nextOut k = true
    · rw [if_pos hout]
      exact .taken _ hbegins fun x _ => (htakes x.1).trans hout
    · rw [if_neg hout]
      exact .idle _ hbegins fun x _ => (htakes x.1).trans (by simpa using hout)

/-- The end of a stroke that was cleared. -/
lemma StrokeStep.of_closed (hb : state.drawing.Bookkept) {id : Uuid} {p : PendingStroke}
    (hp : state.drawing.pending.get id = some p) (hcl : p.cleared = true) {k : Uuid}
    (hbegins : call.begins verify state k = none)
    (htakes : ∀ owner, call.takes state events k owner = false) :
    StrokeStep verify state call events k (state.drawing.recordOf k)
      (((state.drawing.closed id).forgotten id).recordOf k) := by
  rcases recordOf_closed_forgotten hb hp hcl k with h | ⟨hnone, h⟩
  · rw [h]
    exact .idle _ hbegins fun x _ => htakes x.1
  · rw [h]
    exact .taken _ hbegins fun x hx => by rw [hnone] at hx; cases hx

/-- **What a call does to a stroke.** -/
theorem Drawn.strokeStep (hb : state.drawing.Bookkept) (h : Drawn verify state call events drawing)
    (k : Uuid) :
    StrokeStep verify state call events k (state.drawing.recordOf k) (drawing.recordOf k) := by
  cases h with
  | silent call h =>
    obtain ⟨hbegins, hremoves⟩ := call.keeps_of_not_accepted h k
    exact .idle _ hbegins fun x hx => by simp [DrawingCall.takes, hremoves x hx]
  | opened envelope payload userId pubkey nowMs haccept finished t hf =>
    obtain ⟨-, hp, hc⟩ := strokeBeginError_eq_none haccept
    have hopen : (⟨userId, pubkey, nowMs, false⟩ : PendingStroke).cleared = false := rfl
    rw [recordOf_opened hopen (hf.all.fresh hp hc).2]
    by_cases hk : k = payload.strokeId
    · rw [if_pos hk, hk, recordOf_absent hp hc]
      exact .begun _ payload userId (by simp [DrawingCall.begins, haccept])
    · rw [if_neg hk]
      have hbegins : (DrawingCall.begin envelope (.ok payload) userId pubkey nowMs).begins verify
          state k = none := if_neg fun h => hk h.1.symm
      cases hf with
      | idle => exact .idle _ hbegins fun x _ => by simp [DrawingCall.takes, DrawingCall.removes,
          RoomEvent.isEnd]
      | round id stroke finished t hover holdest hs hf hu hr =>
        cases hf with
        | cleared stroke hs hcl =>
          exact .of_closed hb hs hcl hbegins fun owner => by simp [DrawingCall.takes,
            DrawingCall.removes, RoomEvent.isEnd]
        | ended stroke hs hcl _ he =>
          exact .of_ends hb hs hcl he hbegins (fun _ => rfl)
            (List.mem_append_left _ (List.mem_singleton_self _))
  | kept envelope payload userId hr stroke hs hu hcl _ hk =>
    have htakes (owner : Uuid) : (DrawingCall.point envelope (.ok payload) userId).takes state
        [.strokePoint (envelope.roomId.getD state.id) userId payload] k owner = false := rfl
    rcases hk.recordOf k with h | h | ⟨rfl, c, hc, h⟩
    · rw [h]
      exact .idle _ rfl fun x _ => htakes x.1
    · rw [h]
      exact .freed _ rfl fun x _ => htakes x.1
    · rw [h, recordOf_open hb hs hcl, hc, hu]
      exact .pointed c envelope payload userId rfl rfl (htakes userId)
  | forgot envelope payload userId stroke hs hu hcl =>
    exact .of_closed hb hs hcl rfl fun _ => rfl
  | ended envelope payload userId stroke hs hu hcl _ he =>
    subst hu
    exact .of_ends hb hs hcl he rfl (fun _ => rfl) (List.mem_singleton_self _)
  | undone envelope payload userId owner ho hm =>
    rw [recordOf_undone hb (AList.mem_of_get ho)]
    by_cases hk : k = payload.strokeId
    · subst hk
      rw [if_pos rfl]
      refine .taken _ rfl fun x hx => ?_
      rw [StrokeBookkeeping.recordOf, holder_of_committed ho] at hx
      cases hx
      simp [DrawingCall.takes, DrawingCall.removes, AList.mem_of_get ho, hm]
    · rw [if_neg hk]
      exact .idle _ rfl fun x _ => by simp [DrawingCall.takes, DrawingCall.removes, Ne.symm hk,
        RoomEvent.isEnd]
  | cleared userId hm =>
    rw [recordOf_clearAll]
    exact .taken _ rfl fun x _ => by simp [DrawingCall.takes, DrawingCall.removes, hm]

/-- The owner of a stroke follows the calls. -/
lemma StrokeStep.owner_eq {k : Uuid} {r r' : StrokeRecord}
    (h : StrokeStep verify state call events k r r') :
    r'.1.map (·.1) = (call.begins verify state k).or
      ((r.1.map (·.1)).filter fun u => !call.takes state events k u) := by
  have hkeeps (x : Option (Uuid × Bool)) (hb : call.begins verify state k = none)
      (ht : ∀ y, x = some y → call.takes state events k y.1 = false) :
      x.map (·.1) = (call.begins verify state k).or
        ((x.map (·.1)).filter fun u => !call.takes state events k u) := by
    cases x with
    | none => simp [hb]
    | some y => simp [hb, ht y rfl, Option.filter_some]
  cases h with
  | idle _ hb ht => exact hkeeps _ hb ht
  | freed r hb ht => exact hkeeps _ hb ht
  | begun c payload userId hb => simp [hb]
  | pointed c envelope point userId hcall hid ht =>
    exact hkeeps _ (hcall ▸ rfl) fun y hy => by cases hy; exact ht
  | ended c roomId userId payload hb ht he hid => simp [hb, ht, Option.filter_some]
  | taken _ hb ht =>
    cases hx : r.1 with
    | none => simp [hb]
    | some y => simp [hb, ht y hx, Option.filter_some]

/-- The content of a stroke is its holder's. -/
def StrokeRecord.Owned (r : StrokeRecord) : Prop :=
  ∀ x, r.1 = some x → ∃ c, r.2 = some c ∧ c.owner = x.1

lemma StrokeStep.owned {k : Uuid} {r r' : StrokeRecord}
    (h : StrokeStep verify state call events k r r') (ho : r.Owned) : r'.Owned := by
  intro x hx
  cases h with
  | idle => exact ho x hx
  | freed =>
    obtain ⟨c, hc, howner⟩ := ho x hx
    exact ⟨freeContent c, by rw [hc]; rfl, howner⟩
  | begun c payload userId =>
    cases hx
    exact ⟨_, rfl, rfl⟩
  | pointed c =>
    obtain ⟨c', hc, howner⟩ := ho x hx
    cases hc
    exact ⟨_, rfl, howner⟩
  | ended c roomId userId payload =>
    obtain ⟨c', rfl, howner⟩ := ho _ rfl
    cases hx
    exact ⟨_, rfl, howner⟩
  | taken => cases hx

end StrokeStep

/-! ### A section -/

variable {guard : Turn → Prop} {s₀ s : RoomState} {turns : List Turn}

/-- A section that commits a stroke publishes its `DRAW_END`. -/
lemma Turn.end_of_commits {t : Turn} {events : List RoomEvent} {drawing : StrokeBookkeeping}
    (hd : DrawsItems t.env t.before t.sec t.out events drawing) (h : t.commits = true) :
    ∃ e ∈ events, e.isEnd = true := by
  obtain ⟨env, store, sec, s, out, hrun⟩ := t
  have hdrawn : Drawn env.crates.verifyStroke s (sec.drawingCall s) events drawing := hd.drawn
  clear hd
  cases sec with
  | strokeBegin envelope decoded userId pubkey nowMs =>
    cases decoded with
    | error => cases h
    | ok payload =>
      simp only [commits, Bool.and_eq_true, Option.isNone_iff_eq_none] at h
      obtain ⟨⟨⟨hmay, haccept⟩, hover⟩, hopen⟩ := h
      rw [Section.drawingCall, if_pos hmay] at hdrawn
      cases hdrawn with
      | silent _ hrefused => simp [DrawingCall.accepted, haccept] at hrefused
      | opened _ _ _ _ _ _ finished t hf =>
        cases hf with
        | idle hu hr =>
          simp only [overUser, overRoom, Bool.or_eq_true, decide_eq_true_eq] at hover
          omega
        | round id stroke finished t _ holdest hs hf =>
          cases hf with
          | cleared stroke' hs' hcl =>
            cases hs.symm.trans hs'
            simp [holdest, hcl] at hopen
          | ended => exact ⟨_, List.mem_append_left _ (List.mem_singleton_self _), rfl⟩
  | strokeEnd envelope decoded userId =>
    cases decoded with
    | error => cases h
    | ok payload =>
      simp only [commits, Option.any_eq_true, Bool.and_eq_true, beq_iff_eq] at h
      obtain ⟨p, hp, hu, hcl⟩ := h
      rw [Section.drawingCall] at hdrawn
      cases hdrawn with
      | silent _ hrefused => simp [DrawingCall.accepted, hp, hu] at hrefused
      | forgot _ _ _ stroke hs _ hcleared =>
        cases hp.symm.trans hs
        simp [hcleared] at hcl
      | ended => exact ⟨_, List.mem_singleton_self _, rfl⟩
  | _ => cases h

/-- The sections that take a stroke are those whose call and events do. -/
lemma Turn.removes_eq {t : Turn} {events : List RoomEvent} {drawing : StrokeBookkeeping}
    (hd : DrawsItems t.env t.before t.sec t.out events drawing) (id owner : Uuid) :
    t.removes id owner = t.call.takes t.before events id owner := by
  have hcommits : t.commits = events.any RoomEvent.isEnd := by
    rw [Bool.eq_iff_iff, List.any_eq_true]
    exact ⟨Turn.end_of_commits hd, Turn.commits_of_end hd⟩
  rw [Turn.removes, hcommits, DrawingCall.takes]

/-- **One section, one stroke.** -/
lemma Turn.strokeStep {t : Turn} (hb : t.before.drawing.Bookkept) {events : List RoomEvent}
    {drawing : StrokeBookkeeping} (hd : DrawsItems t.env t.before t.sec t.out events drawing)
    (id : Uuid) :
    StrokeStep t.env.crates.verifyStroke t.before t.call events id (t.before.drawing.recordOf id)
      (t.out.state.drawing.recordOf id) := by
  rw [hd.drawing_eq]
  exact hd.drawn.strokeStep hb id

/-- The records of a room are what its history says. -/
lemma RoomRun.owners (r : RoomRun guard s₀ turns s) (h₀ : ∃ wallMs, s₀.drawing = .new wallMs)
    (id : Uuid) :
    (s.drawing.holder id).map (·.1) = strokeOwner id turns ∧ (s.drawing.recordOf id).Owned := by
  obtain ⟨wallMs, hnew⟩ := h₀
  have hb₀ : s₀.drawing.Bookkept := hnew ▸ .new wallMs
  induction r with
  | start =>
    have hnone : s₀.drawing.holder id = none := by
      rw [hnew]
      rfl
    refine ⟨by rw [hnone]; rfl, fun x hx => ?_⟩
    rw [recordOf, hnone] at hx
    cases hx
  | turn t r hg ih =>
    have hb := r.bookkept hb₀
    obtain ⟨events, drawing, hd⟩ := Section.run_draws hb t.ran
    have hstep := Turn.strokeStep hb hd id
    refine ⟨?_, hstep.owned ih.2⟩
    have howner := hstep.owner_eq
    rw [recordOf, recordOf, ih.1] at howner
    simpa only [strokeOwner_append, Turn.removes_eq hd, Turn.begins] using howner

/-- **A section leaves strokes to their owners**, with the room's history before it: a begin is
signed by the user it makes the owner, points and ends are the owner's, also where the room ends a
stroke itself, and no one else adds to what the room keeps of a stroke. -/
structure LeavesToOwners (turns : List Turn) (t : Turn) : Prop where
  begins : ∀ id u, t.begins id = some u → strokeOwner id turns = none ∧
    ∃ envelope payload pubkey nowMs,
      t.sec = .strokeBegin envelope (.ok payload) u pubkey nowMs ∧ payload.strokeId = id ∧
      verifyStrokeBeginSignature t.env.crates.verifyStroke envelope payload u pubkey = .ok () ∧
      ∃ i ∈ t.items, i.payload = .strokeBegin payload ∧ i.sender = some u
  points : ∀ i ∈ t.items, ∀ p, i.payload = .strokePoint p → ∃ u, i.sender = some u ∧
    strokeOwner p.strokeId turns = some u ∧ ∃ envelope, t.sec = .strokePoint envelope (.ok p) u
  ends : ∀ i ∈ t.items, ∀ p, i.payload = .strokeEnd p → ∃ u, i.sender = some u ∧
    strokeOwner p.strokeId turns = some u ∧
    ((∃ envelope, t.sec = .strokeEnd envelope (.ok p) u) ∨
      ∃ envelope payload v pubkey, t.sec = .strokeBegin envelope (.ok payload) v pubkey p.tsMs ∧
        t.begins payload.strokeId = some v ∧
        (t.before.drawing.oldestOpen v).map (·.1) = some p.strokeId)
  recorded : ∀ id c c', t.before.drawing.content.get id = some c →
    t.out.state.drawing.content.get id = some c' → t.begins id = none →
    (c'.points = c.points ∨ c'.points = [] ∨
      ∃ envelope p u, t.sec = .strokePoint envelope (.ok p) u ∧ p.strokeId = id ∧
        strokeOwner id turns = some u ∧ c'.points = c.points ++ [syncPoint p]) ∧
    (c'.endTsMs = c.endTsMs ∨ ∃ i ∈ t.items, ∃ p, i.payload = .strokeEnd p ∧ p.strokeId = id ∧
      c'.endTsMs = some p.tsMs)
  committed : ∀ id u, t.before.drawing.holder id ≠ some (u, true) →
    t.out.state.drawing.holder id = some (u, true) → t.before.drawing.holder id = some (u, false) ∧
      ∃ i ∈ t.items, ∃ p, i.payload = .strokeEnd p ∧ p.strokeId = id ∧ i.sender = some u

section Events

variable {verify : VerifyStroke} {state : RoomState} {call : DrawingCall} {events : List RoomEvent}
  {drawing : StrokeBookkeeping} {e : RoomEvent}

/-- A `DRAW_POINT` is published for the user who has the stroke open. -/
lemma Drawn.point_owner (hb : state.drawing.Bookkept) (h : Drawn verify state call events drawing)
    (he : e ∈ events) {p : StrokePointPayload} (hp : e.payload = .strokePoint p) :
    ∃ envelope u, call = .point envelope (.ok p) u ∧ e.sender = some u ∧
      state.drawing.holder p.strokeId = some (u, false) := by
  cases h with
  | silent => cases he
  | opened =>
    rcases List.mem_append.1 he with he | he
    · obtain ⟨stroke, -, rfl⟩ := List.mem_map.1 he
      cases hp
    · cases List.mem_singleton.1 he
      cases hp
  | kept envelope payload userId hr stroke hs hu hcl =>
    cases List.mem_singleton.1 he
    cases hp
    exact ⟨envelope, userId, rfl, rfl, by rw [holder_of_pending hb hs, hcl, hu]; rfl⟩
  | forgot => cases he
  | ended => cases List.mem_singleton.1 he; cases hp
  | undone => cases List.mem_singleton.1 he; cases hp
  | cleared => cases List.mem_singleton.1 he; cases hp

/-- A `DRAW_END` is published for the user who has the stroke open: they ended it, or it is the
oldest one when an accepted `DRAW_BEGIN` needs its place. -/
lemma Drawn.end_owner (hb : state.drawing.Bookkept) (h : Drawn verify state call events drawing)
    (he : e ∈ events) {p : StrokeEndPayload} (hp : e.payload = .strokeEnd p) :
    ∃ u, e.sender = some u ∧ state.drawing.holder p.strokeId = some (u, false) ∧
      ((∃ envelope, call = .finish envelope (.ok p) u) ∨
        ∃ envelope payload v pubkey, call = .begin envelope (.ok payload) v pubkey p.tsMs ∧
          call.begins verify state payload.strokeId = some v ∧
          (state.drawing.oldestOpen v).map (·.1) = some p.strokeId) := by
  cases h with
  | silent => cases he
  | opened envelope payload userId pubkey nowMs haccept finished t hf =>
    rcases List.mem_append.1 he with he | he
    · cases hf with
      | idle => cases he
      | round id stroke finished t hover holdest hs hf hu hr =>
        cases hf with
        | cleared => cases he
        | ended stroke' hs' hcl _ _ =>
          cases List.mem_singleton.1 he
          cases hp
          cases hs.symm.trans hs'
          refine ⟨stroke.senderId, rfl, by rw [holder_of_pending hb hs, hcl]; rfl, .inr ?_⟩
          exact ⟨envelope, payload, userId, pubkey, rfl, by simp [DrawingCall.begins, haccept],
            by rw [holdest]; rfl⟩
    · cases List.mem_singleton.1 he
      cases hp
  | kept => cases List.mem_singleton.1 he; cases hp
  | forgot => cases he
  | ended envelope payload userId stroke hs hu hcl =>
    cases List.mem_singleton.1 he
    cases hp
    exact ⟨userId, rfl, by rw [holder_of_pending hb hs, hcl, hu]; rfl, .inl ⟨envelope, rfl⟩⟩
  | undone => cases List.mem_singleton.1 he; cases hp
  | cleared => cases List.mem_singleton.1 he; cases hp

/-- An accepted `DRAW_BEGIN` is signed by its user and published. -/
lemma Drawn.begin_signed (h : Drawn verify state call events drawing) {id u : Uuid}
    (hbegins : call.begins verify state id = some u) :
    state.drawing.holder id = none ∧ ∃ envelope payload pubkey nowMs,
      call = .begin envelope (.ok payload) u pubkey nowMs ∧ payload.strokeId = id ∧
      verifyStrokeBeginSignature verify envelope payload u pubkey = .ok () ∧
      ∃ roomId, .strokeBegin roomId u payload ∈ events := by
  have hcases : ∃ envelope payload pubkey nowMs,
      call = .begin envelope (.ok payload) u pubkey nowMs ∧ payload.strokeId = id ∧
      strokeBeginError verify envelope state u pubkey payload = none := by
    cases call with
    | begin envelope decoded userId pubkey nowMs =>
      cases decoded with
      | error => cases hbegins
      | ok payload =>
        simp only [DrawingCall.begins, Option.ite_none_right_eq_some, Option.some.injEq] at hbegins
        obtain ⟨⟨hid, haccept⟩, rfl⟩ := hbegins
        exact ⟨envelope, payload, pubkey, nowMs, rfl, hid, haccept⟩
    | _ => cases hbegins
  obtain ⟨envelope, payload, pubkey, nowMs, rfl, rfl, haccept⟩ := hcases
  obtain ⟨hsig, hp, hc⟩ := strokeBeginError_eq_none haccept
  refine ⟨holder_of_absent hp hc, envelope, payload, pubkey, nowMs, rfl, rfl, hsig, ?_⟩
  cases h with
  | silent _ hrefused => simp [DrawingCall.accepted, haccept] at hrefused
  | opened => exact ⟨_, List.mem_append_right _ (List.mem_singleton_self _)⟩

end Events

/-- **Every section leaves strokes to their owners.** -/
lemma RoomRun.leavesToOwners {t : Turn} (r : RoomRun guard s₀ turns t.before)
    (h₀ : ∃ wallMs, s₀.drawing = .new wallMs) : LeavesToOwners turns t := by
  have hb : t.before.drawing.Bookkept := by
    obtain ⟨wallMs, hnew⟩ := h₀
    exact r.bookkept (hnew ▸ .new wallMs)
  obtain ⟨events, drawing, hd⟩ := Section.run_draws hb t.ran
  have howner {id u : Uuid} {ended : Bool} (h : t.before.drawing.holder id = some (u, ended)) :
      strokeOwner id turns = some u := by
    rw [← (r.owners h₀ id).1, h]
    rfl
  have hevent {i : BroadcastItem} (hi : i ∈ t.items) :
      ∃ e ∈ events, i.payload = e.payload ∧ i.sender = e.sender := by
    rw [Turn.items, hd.items_eq] at hi
    exact (mem_numbered hi).2.2
  have hitem {e : RoomEvent} (he : e ∈ events) :
      ∃ i ∈ t.items, i.payload = e.payload ∧ i.sender = e.sender := by
    rw [Turn.items, hd.items_eq]
    exact mem_numbered_of_mem _ _ he
  refine ⟨?_, ?_, ?_, ?_, ?_⟩
  · intro id u hbegins
    obtain ⟨hnone, envelope, payload, pubkey, nowMs, hcall, hid, hsig, roomId, he⟩ :=
      hd.drawn.begin_signed hbegins
    obtain ⟨i, hi, hp, hs⟩ := hitem he
    refine ⟨by rw [← (r.owners h₀ id).1, hnone]; rfl, envelope, payload, pubkey, nowMs,
      (drawingCall_eq_begin hcall).1, hid, hsig, i, hi, hp, hs⟩
  · intro i hi p hp
    obtain ⟨e, he, hpay, hsend⟩ := hevent hi
    obtain ⟨envelope, u, hcall, hs, hholder⟩ := hd.drawn.point_owner hb he (hpay.symm.trans hp)
    exact ⟨u, hsend.trans hs, howner hholder, envelope, drawingCall_eq_point hcall⟩
  · intro i hi p hp
    obtain ⟨e, he, hpay, hsend⟩ := hevent hi
    obtain ⟨u, hs, hholder, hcall⟩ := hd.drawn.end_owner hb he (hpay.symm.trans hp)
    refine ⟨u, hsend.trans hs, howner hholder, hcall.imp ?_ ?_⟩
    · rintro ⟨envelope, hcall⟩
      exact ⟨envelope, drawingCall_eq_finish hcall⟩
    · rintro ⟨envelope, payload, v, pubkey, hcall, hbegins, holdest⟩
      exact ⟨envelope, payload, v, pubkey, (drawingCall_eq_begin hcall).1, hbegins, holdest⟩
  · intro id c c' hc hc' hbegins
    have hstep := Turn.strokeStep hb hd id
    rw [recordOf, recordOf, hc, hc'] at hstep
    generalize hx : t.before.drawing.holder id = x at hstep
    generalize t.out.state.drawing.holder id = x' at hstep
    cases hstep with
    | idle => exact ⟨.inl rfl, .inl rfl⟩
    | freed => exact ⟨.inr (.inl rfl), .inl rfl⟩
    | begun _ payload userId hb => exact absurd (hbegins.symm.trans hb) (by simp)
    | pointed _ envelope point userId hcall hid =>
      exact ⟨.inr (.inr ⟨envelope, point, userId, drawingCall_eq_point hcall, hid, howner hx, rfl⟩),
        .inl rfl⟩
    | ended _ roomId userId payload hb ht he hid =>
      obtain ⟨i, hi, hp, -⟩ := hitem he
      exact ⟨.inl rfl, .inr ⟨i, hi, payload, hp, hid, rfl⟩⟩
  · intro id u hbefore hafter
    have hstep := Turn.strokeStep hb hd id
    rw [recordOf, recordOf, hafter] at hstep
    generalize hx : t.before.drawing.holder id = x at hstep hbefore
    generalize t.before.drawing.content.get id = c at hstep
    generalize t.out.state.drawing.content.get id = c' at hstep
    cases hstep with
    | idle => exact absurd rfl hbefore
    | freed => exact absurd rfl hbefore
    | ended _ roomId userId payload hb ht he hid =>
      obtain ⟨i, hi, hp, hs⟩ := hitem he
      exact ⟨rfl, i, hi, payload, hp, hid, hs⟩

/-- **Stroke ownership.**  In any life of a room, whatever its users send, the owner the room has
for a stroke is the user whose signed `DRAW_BEGIN` was accepted, until the stroke is undone or
cleared by a user who may, or forgotten at the cap; and whatever section comes next leaves each
stroke to its owner. -/
theorem strokes_owned (h₀ : ∃ wallMs, s₀.drawing = .new wallMs)
    (r : RoomRun (fun _ => True) s₀ turns s) :
    (∀ id, (s.drawing.holder id).map (·.1) = strokeOwner id turns) ∧
      (∀ id u, strokeOwner id turns = some u →
        ∃ c, s.drawing.content.get id = some c ∧ c.owner = u) ∧
      ∀ t : Turn, t.before = s → LeavesToOwners turns t := by
  refine ⟨fun id => (r.owners h₀ id).1, fun id u hu => ?_, ?_⟩
  · obtain ⟨howner, hcontent⟩ := r.owners h₀ id
    rw [hu] at howner
    obtain ⟨x, hx, rfl⟩ := Option.map_eq_some_iff.1 howner
    exact hcontent x hx
  · rintro t rfl
    exact r.leavesToOwners h₀

/-! ### Three strokes -/

namespace ThreeStrokes

open Crowded

/-- The room after these sections. -/
def after (s : RoomState) : List Section → Option RoomState
  | [] => some s
  | sec :: rest => (sec.run env store s).bind fun out => after out.state rest

lemma exists_run_of_after {secs : List Section} {s s' : RoomState} (h : after s secs = some s')
    (r : RoomRun (fun _ => True) start turns s) :
    ∃ later, later.map Turn.sec = secs ∧ RoomRun (fun _ => True) start (turns ++ later) s' := by
  induction secs generalizing s turns with
  | nil =>
    cases h
    exact ⟨[], rfl, by rwa [List.append_nil]⟩
  | cons sec secs ih =>
    obtain ⟨out, hout, h⟩ := Option.bind_eq_some_iff.1 h
    obtain ⟨later, hlater, r'⟩ := ih h (.turn ⟨env, store, sec, s, out, hout⟩ r trivial)
    exact ⟨⟨env, store, sec, s, out, hout⟩ :: later, by rw [List.map_cons, hlater],
      by simpa using r'⟩

/-- A point of a stroke, from a user. -/
def point (n : ℕ) (userId : Uuid) : Section :=
  .strokePoint envelope (.ok ⟨n + 1, 0, 0, 0, 0⟩) userId

/-- One stroke is drawn, with a point that somebody else sends; a second one is undone, and a third
begun. -/
def drawnSections : List Section :=
  [begin 0, point 0 7, point 0 9, finish 0, begin 1, finish 1,
    .strokeUndo envelope (.ok ⟨2⟩) 7, begin 2]

/-- The first two strokes are in the room and gone, and the third is open. -/
theorem strokes_owned_three : ∃ turns s, turns.map Turn.sec = drawnSections ∧
    strokeOwner 1 turns = some 7 ∧ strokeOwner 2 turns = none ∧ strokeOwner 3 turns = some 7 ∧
    (∃ c, s.drawing.content.get 1 = some c ∧ c.owner = 7) ∧
    ∀ t : Turn, t.before = s → LeavesToOwners turns t := by
  obtain ⟨s, hs, hheld⟩ : ∃ s, after start drawnSections = some s ∧
      [1, 2, 3].map (fun id => (s.drawing.holder id).map (·.1)) = [some 7, none, some 7] := by
    have hcheck : ((after start drawnSections).any fun s =>
        [1, 2, 3].map (fun id => (s.drawing.holder id).map (·.1)) == [some 7, none, some 7]) =
          true := by
      decide
    obtain ⟨s, hs, hheld⟩ := (Option.any_eq_true _ _).1 hcheck
    exact ⟨s, hs, beq_iff_eq.1 hheld⟩
  obtain ⟨turns, hturns, r⟩ := exists_run_of_after hs .start
  obtain ⟨howner, hcontent, hnext⟩ := strokes_owned ⟨0, rfl⟩ r
  simp only [List.map_cons, List.map_nil, List.cons.injEq, and_true] at hheld
  obtain ⟨hfirst, hsecond, hthird⟩ := hheld
  rw [howner] at hfirst hsecond hthird
  exact ⟨turns, s, hturns, hfirst, hsecond, hthird, hcontent 1 7 hfirst, hnext⟩

end ThreeStrokes

end Locast.Rooms
