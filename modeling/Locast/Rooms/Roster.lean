import Locast.Rooms.Section
import Mathlib.Logic.Function.Basic

/-!
# The roster of a room

An abstract room: who sits in it, with which status, who hosts it, whether the grace timer runs and
whether the room has ended.  `RosterStep` says once what a write section can do to a roster and whom
it announces; the membership results are read off it.
-/

namespace Locast.Rooms

open Locast.Lib Locast.Protocol

/-! ### Rosters -/

/-- What the roster keeps of a participant record. -/
structure Seat where
  status : ParticipantStatus
  isHost : Bool
  deriving DecidableEq

/-- The abstract room. -/
@[ext]
structure Roster where
  ended : Bool
  deadline : Option ℤ
  host : Uuid
  seat : Uuid → Option Seat

/-- A membership event owed to the room: somebody came, or somebody is gone. -/
inductive Announcement where
  | joined (userId : Uuid)
  | left (userId : Uuid)
  deriving DecidableEq

def ParticipantRecord.seat (p : ParticipantRecord) : Seat where
  status := p.status
  isHost := p.isHost

@[simp] lemma ParticipantRecord.seat_status (p : ParticipantRecord) : p.seat.status = p.status :=
  rfl
@[simp] lemma ParticipantRecord.seat_isHost (p : ParticipantRecord) : p.seat.isHost = p.isHost :=
  rfl

/-- The roster of a room state. -/
def RoomState.roster (s : RoomState) : Roster where
  ended := s.state = .ended
  deadline := s.hostDisconnectDeadlineMs
  host := s.hostUserId
  seat userId := (s.record userId).map (·.seat)

/-- The announcement a leave's event makes. -/
def RoomEvent.announcement : RoomEvent → Option Announcement
  | .participantJoined p => some (.joined p.userId)
  | .participantLeft p => some (.left p.userId)
  | _ => none

/-- The announcements a section leaves to its task. -/
def Section.announced : (sec : Section) → sec.Reply → List Announcement
  | .join userId .., .ok _ => [.joined userId]
  | .leave .., some reply => reply.events.filterMap RoomEvent.announcement
  | .presenceTimeout _, users => List.map .left users
  | .stale _, users => List.map .left users
  | _, _ => []

namespace Roster

/-- `userId`'s seat replaced. -/
def sit (R : Roster) (userId : Uuid) (x : Seat) : Roster :=
  { R with seat := Function.update R.seat userId (some x) }

/-- The seats of `gone` taken away. -/
def clear (R : Roster) (gone : Uuid → Prop) [DecidablePred gone] : Roster :=
  { R with seat := fun u => if gone u then none else R.seat u }

/-- The seat is not `left`. -/
def Live (R : Roster) (u : Uuid) : Prop := ∃ x, R.seat u = some x ∧ x.status ≠ .left

@[simp] lemma sit_seat (R : Roster) (u v : Uuid) (x : Seat) :
    (R.sit u x).seat v = if v = u then some x else R.seat v := by
  simp [sit, Function.update_apply]

@[simp] lemma sit_ended (R : Roster) (u : Uuid) (x : Seat) : (R.sit u x).ended = R.ended := rfl
@[simp] lemma sit_host (R : Roster) (u : Uuid) (x : Seat) : (R.sit u x).host = R.host := rfl
@[simp] lemma sit_deadline (R : Roster) (u : Uuid) (x : Seat) :
    (R.sit u x).deadline = R.deadline := rfl

end Roster

/-! ### What a section can do -/

/-- **The moves of a roster** under a section, with the announcements it makes. -/
inductive RosterStep (cfg : RoomRegistryConfig) :
    Section → List Announcement → Roster → Roster → Prop
  /-- Refused, or of no concern to the roster. -/
  | keep {R : Roster} (sec : Section) : RosterStep cfg sec [] R R
  /-- A user without a live seat takes one. -/
  | join {R : Roster} {u : Uuid} {pubkey : PubKey} {displayName : String} {nowMs : ℤ}
      (hopen : R.ended = false) (hfree : ¬R.Live u) :
      RosterStep cfg (.join u pubkey displayName nowMs) [.joined u] R (R.sit u ⟨.connected, false⟩)
  /-- A viewer leaves. -/
  | leave {R : Roster} {u : Uuid} {intentional : Bool} {nowMs : ℤ} {st : ParticipantStatus}
      (hopen : R.ended = false) (hseat : R.seat u = some ⟨st, false⟩) (hlive : st ≠ .left) :
      RosterStep cfg (.leave u intentional nowMs) [.left u] R (R.sit u ⟨.left, false⟩)
  /-- The host leaves and the room ends. -/
  | close {R : Roster} {u : Uuid} {intentional : Bool} {nowMs : ℤ} {st : ParticipantStatus}
      (hopen : R.ended = false) (hseat : R.seat u = some ⟨st, true⟩) (hlive : st ≠ .left) :
      RosterStep cfg (.leave u intentional nowMs) [.left u] R
        { R.sit u ⟨.left, true⟩ with ended := true }
  /-- The host leaves and a viewer who is present takes over. -/
  | elect {R : Roster} {u v : Uuid} {nowMs : ℤ} {st st' : ParticipantStatus}
      (hopen : R.ended = false) (hseat : R.seat u = some ⟨st, true⟩) (hlive : st ≠ .left)
      (hne : v ≠ u) (hv : R.seat v = some ⟨st', false⟩) (hpresent : st'.isPresent) :
      RosterStep cfg (.leave u true nowMs) [.left u] R
        { (R.sit u ⟨.left, false⟩).sit v ⟨st', true⟩ with host := v }
  /-- The host's transport is lost and the grace timer starts. -/
  | wait {R : Roster} {u : Uuid} {nowMs deadline : ℤ} {st : ParticipantStatus}
      (hopen : R.ended = false) (hseat : R.seat u = some ⟨st, true⟩) (hlive : st ≠ .left) :
      RosterStep cfg (.leave u false nowMs) [] R
        { R.sit u ⟨.reconnecting, true⟩ with deadline := some deadline }
  /-- The host's transport is lost without a grace period and a viewer takes over. -/
  | replace {R : Roster} {u v : Uuid} {nowMs deadline : ℤ} {st st' : ParticipantStatus}
      (hgrace : cfg.hostDisconnectGraceMs ≤ 0)
      (hopen : R.ended = false) (hseat : R.seat u = some ⟨st, true⟩) (hlive : st ≠ .left)
      (hne : v ≠ u) (hv : R.seat v = some ⟨st', false⟩) (hpresent : st'.isPresent) :
      RosterStep cfg (.leave u false nowMs) [] R
        { (R.sit u ⟨.reconnecting, false⟩).sit v ⟨st', true⟩ with
          deadline := some deadline, host := v }
  /-- A viewer's transport is lost, or so its task believes. -/
  | lost {R : Roster} {u : Uuid} {nowMs : ℤ} {x : Seat}
      (hopen : R.ended = false) (hseat : R.seat u = some x) :
      RosterStep cfg (.connectionLost u nowMs) [] R (R.sit u { x with status := .disconnected })
  /-- The host is back, whoever it is by now. -/
  | hostBack {R : Roster} {u : Uuid} {pubkey : PubKey} {nowMs : ℤ} {st : ParticipantStatus}
      (hseat : R.seat R.host = some ⟨st, true⟩) :
      RosterStep cfg (.rejoinHost u pubkey nowMs) [] R
        { R.sit R.host ⟨.connected, true⟩ with deadline := none }
  /-- Everyone else is back. -/
  | back {R : Roster} {u : Uuid} {pubkey : PubKey} {nowMs : ℤ} {x : Seat}
      (hseat : R.seat u = some x) :
      RosterStep cfg (.rejoin u pubkey nowMs) [] R (R.sit u { x with status := .connected })
  /-- A disconnected viewer shows a sign of life. -/
  | revive {R : Roster} {u : Uuid} {nowMs : ℤ}
      (hseat : R.seat u = some ⟨.disconnected, false⟩) :
      RosterStep cfg (.touch u nowMs) [] R (R.sit u ⟨.connected, false⟩)
  /-- Connected viewers have been silent for too long. -/
  | timeout {R : Roster} {nowMs : ℤ} {users : List Uuid} (hopen : R.ended = false)
      (hnodup : users.Nodup) (hseat : ∀ u ∈ users, R.seat u = some ⟨.connected, false⟩) :
      RosterStep cfg (.presenceTimeout nowMs) (users.map .left) R
        { R with seat := fun u => if u ∈ users then some ⟨.disconnected, false⟩ else R.seat u }
  /-- Viewers have been silent for the stale window, and some had left before. -/
  | stale {R : Roster} {nowMs : ℤ} {users forgotten : List Uuid} (hopen : R.ended = false)
      (hnodup : users.Nodup)
      (hseat : ∀ u ∈ users, ∃ st, R.seat u = some ⟨st, false⟩ ∧ st ≠ .left)
      (hleft : ∀ u ∈ forgotten, R.seat u = some ⟨.left, false⟩) :
      RosterStep cfg (.stale nowMs) (users.map .left) R
        (R.clear fun u => u ∈ users ∨ u ∈ forgotten)
  /-- The grace timer ran out. -/
  | expire {R : Roster} {nowMs deadline : ℤ} (hdeadline : R.deadline = some deadline)
      (hdue : deadline ≤ nowMs) :
      RosterStep cfg (.grace nowMs) [] R { R with ended := true }

variable {cfg : RoomRegistryConfig} {sec : Section} {owed : List Announcement} {R R' : Roster}

/-- An ended room stays ended. -/
lemma RosterStep.ended (h : RosterStep cfg sec owed R R') (he : R.ended = true) :
    R'.ended = true := by
  cases h <;> first | exact he | rfl

lemma RosterStep.open (h : RosterStep cfg sec owed R R') (he : R'.ended = false) :
    R.ended = false := by
  by_contra hc
  simp [h.ended (by simpa using hc)] at he

/-! ### The host's seat -/

/-- One seat is the host's; while the room runs it is not `left`. -/
structure Roster.HostSeat (R : Roster) : Prop where
  seated : ∃ st, R.seat R.host = some ⟨st, true⟩ ∧ (R.ended = false → st ≠ .left)
  unique : ∀ u st, R.seat u = some ⟨st, true⟩ → u = R.host

/-- Changing the status of a seat, except to `left`, keeps the host's seat. -/
lemma Roster.HostSeat.sit (h : R.HostSeat) {u : Uuid} {x : Seat} (hseat : R.seat u = some x)
    (st : ParticipantStatus) (hst : st ≠ .left) : (R.sit u { x with status := st }).HostSeat := by
  obtain ⟨⟨st₀, h₀, hl₀⟩, hu⟩ := h
  refine ⟨?_, fun v st' hv => ?_⟩
  · by_cases hh : R.host = u
    · subst hh
      rw [h₀] at hseat
      cases hseat
      exact ⟨st, by simp, fun _ => hst⟩
    · exact ⟨st₀, by simpa [hh] using h₀, hl₀⟩
  · rw [sit_seat] at hv
    split at hv
    · rename_i hvu
      subst hvu
      obtain ⟨rfl, hx⟩ := Seat.mk.inj (Option.some.inj hv)
      exact hu v x.status (by rw [hseat, ← hx])
    · exact hu v st' hv

/-- A viewer's seat may change at will. -/
lemma Roster.HostSeat.sit_viewer (h : R.HostSeat) {u : Uuid} (hu : u ≠ R.host)
    (st : ParticipantStatus) : (R.sit u ⟨st, false⟩).HostSeat := by
  obtain ⟨⟨st₀, h₀, hl₀⟩, huniq⟩ := h
  refine ⟨⟨st₀, by simpa [hu.symm] using h₀, hl₀⟩, fun v st' hv => ?_⟩
  rw [sit_seat] at hv
  split at hv
  · cases hv
  · exact huniq v st' hv

/-- A viewer is not the host. -/
lemma Roster.HostSeat.ne_host (h : R.HostSeat) {u : Uuid} {st : ParticipantStatus}
    (hseat : R.seat u = some ⟨st, false⟩) : u ≠ R.host := by
  rintro rfl
  obtain ⟨⟨st₀, h₀, -⟩, -⟩ := h
  rw [h₀] at hseat
  cases hseat

/-- Seating a new host in place of the old one. -/
lemma Roster.HostSeat.elect (h : R.HostSeat) {u v : Uuid} {st st' st₀ : ParticipantStatus}
    (hu : R.seat u = some ⟨st, true⟩) (hlive : st' ≠ .left) (deadline : Option ℤ) :
    Roster.HostSeat { (R.sit u ⟨st₀, false⟩).sit v ⟨st', true⟩ with
      deadline := deadline, host := v } := by
  refine ⟨⟨st', by simp, fun _ => hlive⟩, fun w st'' hw => ?_⟩
  change ((R.sit u ⟨st₀, false⟩).sit v ⟨st', true⟩).seat w = _ at hw
  by_contra hwv
  have hwv : w ≠ v := hwv
  rw [sit_seat, if_neg hwv, sit_seat] at hw
  split at hw
  · cases hw
  · rename_i hwu
    exact hwu ((h.unique w st'' hw).trans (h.unique u st hu).symm)

/-- **A section keeps the host's seat.** -/
theorem RosterStep.hostSeat (h : RosterStep cfg sec owed R R') (hs : R.HostSeat) :
    R'.HostSeat := by
  cases h with
  | keep => exact hs
  | join hopen hfree =>
    refine hs.sit_viewer ?_ _
    rintro rfl
    obtain ⟨st, hst, hl⟩ := hs.seated
    exact hfree ⟨_, hst, hl hopen⟩
  | leave _ hseat _ => exact hs.sit_viewer (hs.ne_host hseat) _
  | close _ hseat _ =>
    have hu := hs.unique _ _ hseat
    refine ⟨⟨.left, by simp [hu], fun he => by cases he⟩, fun v st hv => ?_⟩
    by_contra hne
    have hne' : v ≠ R.host := hne
    exact hne' (hs.unique v st (by simpa [hu, hne'] using hv))
  | elect _ hseat _ hne _ hpresent =>
    exact hs.elect hseat (by rintro rfl; simp [ParticipantStatus.isPresent] at hpresent) _
  | wait _ hseat _ =>
    have := hs.sit hseat .reconnecting (by decide)
    exact ⟨this.seated, this.unique⟩
  | replace _ _ hseat _ hne _ hpresent =>
    exact hs.elect hseat (by rintro rfl; simp [ParticipantStatus.isPresent] at hpresent) _
  | lost _ hseat => exact hs.sit hseat _ (by decide)
  | hostBack hseat =>
    have := hs.sit hseat .connected (by decide)
    exact ⟨this.seated, this.unique⟩
  | back hseat => exact hs.sit hseat _ (by decide)
  | revive hseat => exact hs.sit hseat _ (by decide)
  | timeout _ _ hseat =>
    obtain ⟨st, h₀, hl⟩ := hs.seated
    refine ⟨⟨st, ?_, hl⟩, fun v st' hv => ?_⟩
    · simp only
      split
      · rename_i hmem
        exact absurd rfl (hs.ne_host (hseat _ hmem))
      · exact h₀
    · simp only at hv
      split at hv
      · cases hv
      · exact hs.unique v st' hv
  | stale _ _ hseat hleft =>
    obtain ⟨st, h₀, hl⟩ := hs.seated
    refine ⟨⟨st, ?_, hl⟩, fun v st' hv => ?_⟩
    · simp only [Roster.clear]
      split
      · rename_i hmem
        rcases hmem with hmem | hmem
        · obtain ⟨_, hst, -⟩ := hseat _ hmem
          exact absurd rfl (hs.ne_host hst)
        · exact absurd rfl (hs.ne_host (hleft _ hmem))
      · exact h₀
    · simp only [Roster.clear] at hv
      split at hv
      · cases hv
      · exact hs.unique v st' hv
  | expire =>
    obtain ⟨st, h₀, -⟩ := hs.seated
    exact ⟨⟨st, h₀, fun he => by cases he⟩, hs.unique⟩

end Locast.Rooms
