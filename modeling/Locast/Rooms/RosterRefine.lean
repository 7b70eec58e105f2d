import Locast.Rooms.Roster

/-!
# Room states refine rosters

The records of a room state are keyed by user id (`Keyed`).  Under that, every write section of the
source is a move of the roster, keeps the room's id and keeps the records keyed.
-/

namespace Locast.Rooms

open Locast.Lib Locast.Protocol

/-! ### Records by user id -/

section Records

variable {l : List ParticipantRecord} {f : ParticipantRecord → ParticipantRecord}
  {p : ParticipantRecord → Bool}

/-- The first record of `u` in a list. -/
def recordIn (l : List ParticipantRecord) (u : Uuid) : Option ParticipantRecord :=
  l.find? fun p => p.userId == u

lemma RoomState.record_eq (s : RoomState) (u : Uuid) : s.record u = recordIn s.participants u := rfl

@[simp] lemma recordIn_nil (u : Uuid) : recordIn [] u = none := rfl

lemma recordIn_cons (a : ParticipantRecord) (l : List ParticipantRecord) (u : Uuid) :
    recordIn (a :: l) u = if a.userId = u then some a else recordIn l u := by
  simp only [recordIn, List.find?_cons]
  split <;> simp_all

lemma mem_of_recordIn {u : Uuid} {a : ParticipantRecord} (h : recordIn l u = some a) :
    a ∈ l ∧ a.userId = u :=
  ⟨List.mem_of_find?_eq_some h, by simpa using List.find?_some h⟩

lemma recordIn_eq_none {u : Uuid} : recordIn l u = none ↔ u ∉ l.map (·.userId) := by
  simp [recordIn, List.find?_eq_none]

/-- In a keyed list a record is found under its user id. -/
lemma recordIn_of_mem (h : (l.map (·.userId)).Nodup) {a : ParticipantRecord} (ha : a ∈ l) :
    recordIn l a.userId = some a := by
  induction l with
  | nil => cases ha
  | cons b l ih =>
    rw [List.map_cons, List.nodup_cons] at h
    rw [recordIn_cons]
    rcases List.mem_cons.1 ha with rfl | ha
    · simp
    · rw [if_neg, ih h.2 ha]
      exact fun hb => h.1 (hb ▸ List.mem_map_of_mem ha)

/-- In a keyed list a user has one record. -/
lemma filter_userId (h : (l.map (·.userId)).Nodup) {u : Uuid} {a : ParticipantRecord}
    (ha : recordIn l u = some a) : l.filter (fun q => q.userId == u) = [a] := by
  induction l with
  | nil => cases ha
  | cons b l ih =>
    rw [List.map_cons, List.nodup_cons] at h
    rw [recordIn_cons] at ha
    split at ha
    · rename_i hb
      cases ha
      have hrest : l.filter (fun q => q.userId == u) = [] := by
        refine List.filter_eq_nil_iff.2 fun q hq => ?_
        simp only [beq_iff_eq]
        exact fun hqu => h.1 (List.mem_map.2 ⟨q, hq, hqu.trans hb.symm⟩)
      rw [List.filter_cons_of_pos (by simpa using hb), hrest]
    · rename_i hb
      rw [List.filter_cons_of_neg (by simpa using hb), ih h.2 ha]

/-- A change that keeps the user ids is seen record by record. -/
lemma recordIn_map (hf : ∀ a, (f a).userId = a.userId) (u : Uuid) :
    recordIn (l.map f) u = (recordIn l u).map f := by
  induction l with
  | nil => rfl
  | cons a l ih =>
    rw [List.map_cons, recordIn_cons, recordIn_cons, hf, ih]
    split <;> rfl

lemma recordIn_filter (h : (l.map (·.userId)).Nodup) (u : Uuid) :
    recordIn (l.filter p) u = (recordIn l u).filter p := by
  induction l with
  | nil => rfl
  | cons a l ih =>
    rw [List.map_cons, List.nodup_cons] at h
    by_cases ha : p a
    · rw [List.filter_cons_of_pos ha, recordIn_cons, recordIn_cons, ih h.2]
      split
      · rw [Option.filter_some, if_pos ha]
      · rfl
    · rw [List.filter_cons_of_neg ha, ih h.2, recordIn_cons]
      split
      · rename_i hu
        rw [recordIn_eq_none.2 (hu ▸ h.1), Option.filter_some, if_neg ha]
        rfl
      · rfl

lemma recordIn_append_singleton (a : ParticipantRecord) (u : Uuid) :
    recordIn (l ++ [a]) u = (recordIn l u).or (if a.userId = u then some a else none) := by
  rw [recordIn, List.find?_append]
  congr 1
  exact recordIn_cons a [] u

lemma map_updateFirst {β : Type} (g : ParticipantRecord → β) (hg : ∀ a, g (f a) = g a) :
    (updateFirst p f l).map g = l.map g := by
  induction l with
  | nil => rfl
  | cons a l ih =>
    rw [updateFirst]
    split <;> simp [hg, ih]

lemma updateFirst_of_none (h : l.find? p = none) : updateFirst p f l = l := by
  induction l with
  | nil => rfl
  | cons a l ih =>
    rw [List.find?_eq_none] at h
    rw [updateFirst, if_neg (h a List.mem_cons_self),
      ih (List.find?_eq_none.2 fun b hb => h b (List.mem_cons_of_mem _ hb))]

lemma updateFirst_congr {q : ParticipantRecord → Bool} (h : ∀ a ∈ l, p a = q a) :
    updateFirst p f l = updateFirst q f l := by
  induction l with
  | nil => rfl
  | cons a l ih =>
    rw [updateFirst, updateFirst, h a List.mem_cons_self,
      ih fun b hb => h b (List.mem_cons_of_mem _ hb)]

lemma recordIn_updateFirst (hf : ∀ a, (f a).userId = a.userId) (u v : Uuid) :
    recordIn (updateFirst (fun p => p.userId == u) f l) v =
      if v = u then (recordIn l u).map f else recordIn l v := by
  induction l with
  | nil => simp [updateFirst]
  | cons a l ih =>
    simp only [updateFirst, beq_iff_eq]
    by_cases hu : a.userId = u
    · rw [if_pos hu, recordIn_cons, recordIn_cons, recordIn_cons, hf, if_pos hu]
      by_cases hv : v = u
      · rw [if_pos (hu.trans hv.symm), if_pos hv, Option.map_some]
      · have : a.userId ≠ v := fun h => hv (h.symm.trans hu)
        rw [if_neg this, if_neg hv, if_neg this]
    · rw [if_neg hu, recordIn_cons, recordIn_cons, recordIn_cons, if_neg hu, ih]
      by_cases hv : v = u
      · have : a.userId ≠ v := fun h => hu (h.trans hv)
        rw [if_neg this, if_pos hv, if_pos hv]
      · rw [if_neg hv, if_neg hv]

/-- In a keyed list the first record of `u` that passes a test is `u`'s record, if it passes. -/
lemma find?_of_keyed (h : (l.map (·.userId)).Nodup) (u : Uuid) :
    (l.find? fun a => a.userId == u && p a) = (recordIn l u).filter p := by
  induction l with
  | nil => rfl
  | cons a l ih =>
    rw [List.map_cons, List.nodup_cons] at h
    rw [List.find?_cons, recordIn_cons]
    by_cases hu : a.userId = u
    · rw [if_pos hu, Option.filter_some]
      by_cases hp : p a
      · simp [hu, hp]
      · simp only [hu, hp, beq_self_eq_true, Bool.and_false]
        rw [ih h.2, recordIn_eq_none.2 (hu ▸ h.1)]
        rfl
    · have hu' : (a.userId == u) = false := by simpa using hu
      simp [hu, hu', ih h.2]

/-- The same for a change of that record. -/
lemma updateFirst_of_keyed (h : (l.map (·.userId)).Nodup) {u : Uuid} {a : ParticipantRecord}
    (ha : recordIn l u = some a) (hp : p a) :
    updateFirst (fun b => b.userId == u && p b) f l =
      updateFirst (fun b => b.userId == u) f l := by
  refine updateFirst_congr fun b hb => ?_
  by_cases hu : b.userId = u
  · have := recordIn_of_mem h hb
    rw [hu, ha] at this
    cases this
    simp [hu, hp]
  · simp [hu]

end Records

namespace RoomState

/-- No two records have the same user id. -/
def Keyed (s : RoomState) : Prop := (s.participants.map (·.userId)).Nodup

lemma roster_seat (s : RoomState) (u : Uuid) :
    s.roster.seat u = (recordIn s.participants u).map (·.seat) := rfl

lemma roster_seat_eq_some {s : RoomState} {u : Uuid} {x : Seat} :
    s.roster.seat u = some x ↔ ∃ p, s.record u = some p ∧ p.seat = x := by
  rw [roster_seat, Option.map_eq_some_iff]
  rfl

/-- A member has a live seat. -/
lemma isMember_iff {s : RoomState} (h : s.Keyed) (u : Uuid) : s.isMember u ↔ s.roster.Live u := by
  simp only [isMember, List.any_eq_true, Bool.and_eq_true, beq_iff_eq, decide_eq_true_eq]
  constructor
  · rintro ⟨p, hp, rfl, hl⟩
    exact ⟨p.seat, roster_seat_eq_some.2 ⟨p, recordIn_of_mem h hp, rfl⟩, hl⟩
  · rintro ⟨x, hx, hl⟩
    obtain ⟨p, hp, rfl⟩ := roster_seat_eq_some.1 hx
    exact ⟨p, (mem_of_recordIn hp).1, (mem_of_recordIn hp).2, hl⟩

/-- The live record of `u` is its record, if that is not `left`. -/
lemma liveRecord_eq {s : RoomState} (h : s.Keyed) (u : Uuid) :
    s.liveRecord u = (s.record u).filter fun p => p.status ≠ .left :=
  find?_of_keyed h u

/-- Two room states with one roster. -/
lemma roster_congr {s s' : RoomState} (hended : s'.state = .ended ↔ s.state = .ended)
    (hdeadline : s'.hostDisconnectDeadlineMs = s.hostDisconnectDeadlineMs)
    (hhost : s'.hostUserId = s.hostUserId)
    (hseat : ∀ u, s'.roster.seat u = s.roster.seat u) : s'.roster = s.roster := by
  have he : s'.roster.ended = s.roster.ended := decide_eq_decide.2 hended
  have hs : s'.roster.seat = s.roster.seat := funext hseat
  simp only [roster] at he hs ⊢
  rw [he, hs, hdeadline, hhost]

end RoomState

variable {cfg : RoomRegistryConfig} {s s' : RoomState}

/-! ### Elections -/

@[simp] lemma crown_userId (v : Uuid) (p : ParticipantRecord) : (p.crown v).userId = p.userId := by
  unfold ParticipantRecord.crown
  split
  · rfl
  · split <;> rfl

/-- After an election the new host's seat, and no other, is the host's. -/
lemma crown_seat (v : Uuid) (p : ParticipantRecord) :
    (p.crown v).seat = ⟨p.status, p.userId = v⟩ := by
  unfold ParticipantRecord.crown
  split
  · simp [ParticipantRecord.seat, *]
  · split
    · simp [ParticipantRecord.seat, *]
    · simp_all [ParticipantRecord.seat]

/-- **What an election does**: a candidate takes over, or there is none. -/
lemma electNewHost_spec {v : Uuid} (h : electNewHost s = some (v, s')) :
    ∃ p ∈ s.participants, p.isCandidate ∧ p.userId = v ∧ s' = s.withHost v := by
  simp only [electNewHost] at h
  split at h
  · cases h
  · rename_i p hp
    obtain ⟨rfl, rfl⟩ := Prod.mk.inj (Option.some.inj h)
    have hm := List.mem_filter.1 (least_mem hp)
    exact ⟨p, hm.1, hm.2, rfl, rfl⟩

namespace RoomState

lemma record_withHost (s : RoomState) (v u : Uuid) :
    (s.withHost v).record u = (s.record u).map (·.crown v) := by
  rw [record_eq, record_eq, withHost]
  exact recordIn_map (crown_userId v) u

lemma withHost_keyed (h : s.Keyed) (v : Uuid) : (s.withHost v).Keyed := by
  simpa [Keyed, withHost, Function.comp_def] using h

/-! ### Leaving -/

lemma mark_keyed (h : s.Keyed) (u : Uuid) (st : ParticipantStatus) (nowMs : ℤ) :
    (s.mark u st nowMs).Keyed := by
  rw [Keyed, mark, map_updateFirst]
  · exact h
  · exact fun a => rfl

/-- Marking the leaver changes its record alone. -/
lemma record_mark (h : s.Keyed) {u : Uuid} {leaver : ParticipantRecord}
    (hl : s.liveRecord u = some leaver) (st : ParticipantStatus) (nowMs : ℤ) (v : Uuid) :
    (s.mark u st nowMs).record v =
      if v = u then some { leaver with lastSeenMs := nowMs, status := st } else s.record v := by
  rw [liveRecord_eq h] at hl
  obtain ⟨hr, hp⟩ := Option.filter_eq_some_iff.1 hl
  rw [record_eq] at hr
  simp only [record_eq, mark]
  rw [updateFirst_of_keyed h hr hp, recordIn_updateFirst, hr]
  · rfl
  · exact fun _ => rfl

lemma roster_mark (h : s.Keyed) {u : Uuid} {leaver : ParticipantRecord}
    (hl : s.liveRecord u = some leaver) (st : ParticipantStatus) (nowMs : ℤ) :
    (s.mark u st nowMs).roster = s.roster.sit u ⟨st, leaver.isHost⟩ := by
  refine Roster.ext rfl rfl rfl (funext fun v => ?_)
  rw [Roster.sit_seat]
  change ((s.mark u st nowMs).record v).map _ = _
  rw [record_mark h hl]
  split <;> rfl

/-- An election seats the new host and unseats the old one. -/
lemma roster_withHost {u v : Uuid} {st st' : ParticipantStatus}
    (hs : ∀ w st, s.roster.seat w = some ⟨st, true⟩ → w = u)
    (hu : s.roster.seat u = some ⟨st, true⟩) (hv : s.roster.seat v = some ⟨st', false⟩) :
    (s.withHost v).roster =
      { (s.roster.sit u ⟨st, false⟩).sit v ⟨st', true⟩ with host := v } := by
  have hcrown (w : Uuid) : (s.withHost v).roster.seat w =
      (s.roster.seat w).map fun x => ⟨x.status, w = v⟩ := by
    change ((s.withHost v).record w).map _ = ((s.record w).map _).map _
    rw [record_withHost]
    cases hr : s.record w with
    | none => rfl
    | some p =>
      have hp := (mem_of_recordIn hr).2
      simp only [Option.map_some, crown_seat, hp]
      rfl
  refine Roster.ext rfl rfl rfl (funext fun w => ?_)
  change (s.withHost v).roster.seat w = ((s.roster.sit u ⟨st, false⟩).sit v ⟨st', true⟩).seat w
  rw [hcrown, Roster.sit_seat, Roster.sit_seat]
  by_cases hwv : w = v
  · simp [hwv, hv]
  by_cases hwu : w = u
  · simp [hwu ▸ hwv, hwu, hu]
  rw [if_neg hwv, if_neg hwu]
  cases hx : s.roster.seat w with
  | none => rfl
  | some x =>
    have hh : x.isHost = false := by
      by_contra hcon
      have hcon : x.isHost = true := by simpa using hcon
      refine hwu (hs w x.status ?_)
      rw [hx, ← hcon]
    simp [hwv, ← hh]

/-! ### Joining -/

/-- A new record is found under its user id, the others as before. -/
lemma record_withJoined (h : s.Keyed) {p : ParticipantRecord} (hfree : ¬s.roster.Live p.userId)
    (v : Uuid) : (s.withJoined p).record v = if v = p.userId then some p else s.record v := by
  simp only [record_eq, withJoined]
  rw [recordIn_append_singleton, recordIn_filter h]
  by_cases hv : v = p.userId
  · subst hv
    rw [if_pos rfl, if_pos rfl]
    have : (recordIn s.participants p.userId).filter
        (fun q => !(q.userId == p.userId && q.status = .left)) = none := by
      cases hr : recordIn s.participants p.userId with
      | none => rfl
      | some q =>
        have hq := (mem_of_recordIn hr).2
        have hl : q.status = .left := by
          by_contra hl
          exact hfree ⟨q.seat, roster_seat_eq_some.2 ⟨q, hr, rfl⟩, hl⟩
        simp [Option.filter_some, hq, hl]
    rw [this]
    rfl
  · rw [if_neg hv, if_neg (Ne.symm hv), Option.or_none]
    cases hr : recordIn s.participants v with
    | none => rfl
    | some q =>
      have hq := (mem_of_recordIn hr).2
      simp [Option.filter_some, hq, hv]

lemma withJoined_keyed (h : s.Keyed) {p : ParticipantRecord} (hfree : ¬s.roster.Live p.userId) :
    (s.withJoined p).Keyed := by
  simp only [Keyed, withJoined, List.map_append, List.map_cons, List.map_nil]
  refine List.Nodup.append (h.sublist (List.filter_sublist.map _)) (List.nodup_singleton _) ?_
  intro u hu hp
  rw [List.mem_singleton] at hp
  subst hp
  obtain ⟨q, hq, hqu⟩ := List.mem_map.1 hu
  obtain ⟨hq, hl⟩ := List.mem_filter.1 hq
  refine hfree ⟨q.seat, roster_seat_eq_some.2 ⟨q, ?_, rfl⟩, ?_⟩
  · rw [← hqu]
    exact recordIn_of_mem h hq
  · simpa [hqu, ParticipantRecord.seat] using hl

lemma roster_withJoined (h : s.Keyed) {p : ParticipantRecord} (hfree : ¬s.roster.Live p.userId) :
    (s.withJoined p).roster = s.roster.sit p.userId p.seat := by
  refine Roster.ext rfl rfl rfl (funext fun v => ?_)
  rw [Roster.sit_seat]
  change ((s.withJoined p).record v).map _ = _
  rw [record_withJoined h hfree]
  split <;> rfl

/-! ### Changing one record -/

/-- `iter_mut().find(|p| p.user_id == u)` and a change of the record. -/
def update (s : RoomState) (u : Uuid) (f : ParticipantRecord → ParticipantRecord) : RoomState :=
  { s with participants := updateFirst (fun p => p.userId == u) f s.participants }

lemma update_keyed (h : s.Keyed) {f : ParticipantRecord → ParticipantRecord}
    (hf : ∀ a, (f a).userId = a.userId) (u : Uuid) : (s.update u f).Keyed := by
  rw [Keyed, update, map_updateFirst _ hf]
  exact h

lemma record_update {f : ParticipantRecord → ParticipantRecord}
    (hf : ∀ a, (f a).userId = a.userId) (u v : Uuid) :
    (s.update u f).record v = if v = u then (s.record u).map f else s.record v :=
  recordIn_updateFirst hf u v

lemma roster_update {f : ParticipantRecord → ParticipantRecord}
    (hf : ∀ a, (f a).userId = a.userId) {u : Uuid} {p : ParticipantRecord}
    (hp : s.record u = some p) : (s.update u f).roster = s.roster.sit u (f p).seat := by
  refine Roster.ext rfl rfl rfl (funext fun v => ?_)
  rw [Roster.sit_seat]
  change ((s.update u f).record v).map _ = _
  rw [record_update hf, hp]
  split <;> rfl

lemma update_of_none {f : ParticipantRecord → ParticipantRecord} {u : Uuid}
    (hu : s.record u = none) : s.update u f = s := by
  rw [update, updateFirst_of_none hu]

/-- In a keyed room the host's records are those under the host's id. -/
lemma isHost_iff (h : s.Keyed) (hs : s.roster.HostSeat) {p : ParticipantRecord}
    (hp : p ∈ s.participants) : p.isHost = (p.userId == s.hostUserId) := by
  have hseat : s.roster.seat p.userId = some p.seat :=
    roster_seat_eq_some.2 ⟨p, recordIn_of_mem h hp, rfl⟩
  cases hh : p.isHost with
  | true =>
    have : p.userId = s.hostUserId :=
      hs.unique p.userId p.status (by rw [hseat, ParticipantRecord.seat, hh])
    simpa using this
  | false =>
    rw [ParticipantRecord.seat, hh] at hseat
    have : p.userId ≠ s.hostUserId := hs.ne_host hseat
    simpa using this

/-- The host's record. -/
lemma host_eq (h : s.Keyed) (hs : s.roster.HostSeat) : s.host = s.record s.hostUserId := by
  rw [host, record]
  have : ∀ l : List ParticipantRecord, (∀ p ∈ l, p.isHost = (p.userId == s.hostUserId)) →
      (l.find? fun p => p.isHost) = l.find? fun p => p.userId == s.hostUserId := by
    intro l hl
    induction l with
    | nil => rfl
    | cons a l ih =>
      rw [List.find?_cons, List.find?_cons, hl a List.mem_cons_self,
        ih fun b hb => hl b (List.mem_cons_of_mem _ hb)]
  exact this _ fun p hp => isHost_iff h hs hp

/-! ### Changing many records -/

/-- A change of every record that keeps the user ids. -/
lemma roster_map {f : ParticipantRecord → ParticipantRecord}
    (hf : ∀ a, (f a).userId = a.userId) (v : Uuid) :
    ({ s with participants := s.participants.map f } : RoomState).roster.seat v =
      (s.record v).map fun p => (f p).seat := by
  change Option.map _ (recordIn (s.participants.map f) v) = _
  rw [recordIn_map hf, Option.map_map]
  rfl

/-- Users of the records that pass a test. -/
lemma mem_users (h : s.Keyed) {q : ParticipantRecord → Bool} {u : Uuid} :
    u ∈ (s.participants.filter q).map (·.userId) ↔ ∃ p, s.record u = some p ∧ q p := by
  simp only [List.mem_map, List.mem_filter]
  constructor
  · rintro ⟨p, ⟨hp, hq⟩, rfl⟩
    exact ⟨p, recordIn_of_mem h hp, hq⟩
  · rintro ⟨p, hp, hq⟩
    exact ⟨p, ⟨(mem_of_recordIn hp).1, hq⟩, (mem_of_recordIn hp).2⟩

lemma users_nodup (h : s.Keyed) (q : ParticipantRecord → Bool) :
    ((s.participants.filter q).map (·.userId)).Nodup :=
  h.sublist (List.filter_sublist.map _)

end RoomState

end Locast.Rooms
