import Locast.Rooms.SectionRefine

/-!
# Who counts

The users whose record is not `left`, how their number follows the roster, and which sections bring
somebody back: a join, and two sections that write a status without looking whether its record has
`left` in the meantime.
-/

namespace Locast.Rooms

open Locast.Lib Locast.Protocol

variable {cfg : RoomRegistryConfig} {s s' : RoomState}

/-! ### Live users -/

namespace RoomState

/-- The users with a record that is not `left`. -/
def liveUsers (s : RoomState) : List Uuid :=
  (s.participants.filter fun p => p.status ≠ .left).map (·.userId)

lemma liveCount_eq (s : RoomState) : s.liveCount = s.liveUsers.length := by
  rw [liveCount, liveUsers, List.length_map, List.countP_eq_length_filter]

lemma liveUsers_nodup (h : s.Keyed) : s.liveUsers.Nodup := users_nodup h _

lemma mem_liveUsers (h : s.Keyed) {u : Uuid} : u ∈ s.liveUsers ↔ s.roster.Live u := by
  rw [liveUsers, mem_users h]
  constructor
  · rintro ⟨p, hp, hl⟩
    exact ⟨p.seat, roster_seat_eq_some.2 ⟨p, hp, rfl⟩, by simpa using hl⟩
  · rintro ⟨x, hx, hl⟩
    obtain ⟨p, hp, rfl⟩ := roster_seat_eq_some.1 hx
    exact ⟨p, hp, by simpa using hl⟩

/-- Fewer users are live when nobody new is. -/
lemma liveCount_mono (hk : s.Keyed) (hk' : s'.Keyed)
    (h : ∀ u, s'.roster.Live u → s.roster.Live u) : s'.liveCount ≤ s.liveCount := by
  rw [liveCount_eq, liveCount_eq]
  refine (List.subperm_of_subset (liveUsers_nodup hk') fun u hu => ?_).length_le
  exact (mem_liveUsers hk).2 (h u ((mem_liveUsers hk').1 hu))

/-- One new user raises the count by one at most. -/
lemma liveCount_le_succ (hk : s.Keyed) (hk' : s'.Keyed) {v : Uuid}
    (h : ∀ u, s'.roster.Live u → u = v ∨ s.roster.Live u) : s'.liveCount ≤ s.liveCount + 1 := by
  rw [liveCount_eq, liveCount_eq]
  change _ ≤ (v :: s.liveUsers).length
  refine (List.subperm_of_subset (liveUsers_nodup hk') fun u hu => ?_).length_le
  rcases h u ((mem_liveUsers hk').1 hu) with rfl | hl
  · exact List.mem_cons_self
  · exact List.mem_cons_of_mem _ ((mem_liveUsers hk).2 hl)

end RoomState

/-! ### Coming back -/

/-- The section writes a status over the record of a user who has left the running room. -/
def Section.revives (s : RoomState) : Section → Bool
  | .connectionLost u _ | .rejoin u _ _ =>
    s.state ≠ .ended && (s.record u).any fun p => p.status = .left
  | _ => false

lemma Roster.live_sit {R : Roster} {u v : Uuid} {x : Seat} :
    (R.sit u x).Live v ↔ if v = u then x.status ≠ .left else R.Live v := by
  unfold Roster.Live
  rw [Roster.sit_seat]
  split
  · simp
  · rfl

lemma Roster.live_of_sit {R : Roster} {u v : Uuid} {x : Seat} (h : (R.sit u x).Live v)
    (hu : x.status ≠ .left → R.Live u) : R.Live v := by
  rw [Roster.live_sit] at h
  split at h
  · rename_i hv
    rw [hv]
    exact hu h
  · exact h

/-- Who is live after a section was live before it, or joined in it. -/
lemma RosterStep.live_of {sec : Section} {owed : List Announcement} {R' : Roster}
    (h : RosterStep cfg sec owed s.roster R') (hs : s.roster.HostSeat) (hopen : R'.ended = false)
    (hcalm : sec.revives s = false) {v : Uuid} (hv : R'.Live v) :
    s.roster.Live v ∨ ∃ pubkey name nowMs, sec = .join v pubkey name nowMs := by
  have hopen' : s.state ≠ .ended := roster_ended_eq_false.1 (h.open hopen)
  have hseated {u : Uuid} (hr : (s.record u).any (fun p => decide (p.status = .left)) = false)
    {x : Seat}
      (hx : s.roster.seat u = some x) : s.roster.Live u := by
    obtain ⟨p, hp, rfl⟩ := RoomState.roster_seat_eq_some.1 hx
    exact ⟨_, hx, by simpa [hp] using hr⟩
  -- the crown changes hands between two users who are in the room
  have hcrown {u w : Uuid} {st st' st₀ : ParticipantStatus}
      (hu : s.roster.seat u = some ⟨st, true⟩) (hlive : st ≠ .left) (hne : w ≠ u)
      (hw : s.roster.seat w = some ⟨st', false⟩) (hp : st'.isPresent = true)
      (hv : ((s.roster.sit u ⟨st₀, false⟩).sit w ⟨st', true⟩).Live v) : s.roster.Live v := by
    have hl : st' ≠ .left := by
      rintro rfl
      cases hp
    refine Roster.live_of_sit (Roster.live_of_sit hv fun _ => ?_) fun _ => ⟨_, hu, hlive⟩
    rw [Roster.live_sit, if_neg hne]
    exact ⟨_, hw, hl⟩
  cases h with
  | keep => exact .inl hv
  | @join _ u pubkey name nowMs =>
    rw [Roster.live_sit] at hv
    split at hv
    · rename_i hvu
      exact .inr ⟨pubkey, name, nowMs, by rw [hvu]⟩
    · exact .inl hv
  | leave => exact .inl (Roster.live_of_sit hv fun h => absurd rfl h)
  | close => cases hopen
  | elect _ hseat hlive hne hw hp => exact .inl (hcrown hseat hlive hne hw hp hv)
  | wait _ hseat hlive => exact .inl (Roster.live_of_sit hv fun _ => ⟨_, hseat, hlive⟩)
  | replace _ _ hseat hlive hne hw hp => exact .inl (hcrown hseat hlive hne hw hp hv)
  | lost _ hseat =>
    refine .inl (Roster.live_of_sit hv fun _ => hseated ?_ hseat)
    simpa [Section.revives, hopen'] using hcalm
  | hostBack hseat =>
    refine .inl (Roster.live_of_sit hv fun _ => ?_)
    obtain ⟨st, hst, hl⟩ := hs.seated
    exact ⟨_, hst, hl (roster_ended_eq_false.2 hopen')⟩
  | back hseat =>
    refine .inl (Roster.live_of_sit hv fun _ => hseated ?_ hseat)
    simpa [Section.revives, hopen'] using hcalm
  | revive hseat =>
    exact .inl (Roster.live_of_sit hv fun _ => ⟨_, hseat, by decide⟩)
  | timeout _ _ hseat =>
    left
    obtain ⟨x, hx, hl⟩ := hv
    simp only at hx
    split at hx
    · rename_i hmem
      exact ⟨_, hseat v hmem, by decide⟩
    · exact ⟨x, hx, hl⟩
  | stale =>
    left
    obtain ⟨x, hx, hl⟩ := hv
    simp only [Roster.clear] at hx
    split at hx
    · cases hx
    · exact ⟨x, hx, hl⟩
  | expire => cases hopen

end Locast.Rooms
