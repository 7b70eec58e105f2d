import Locast.Rooms.Publication
import Locast.Server.Closing

/-!
# What tasks do outside the room locks

A task publishes outside the locks only what tells of the participants and what a connection relays,
asks the store for no statement on the manifests, and takes the lock for a publication only with a
manifest that has passed the checks.  `publishing R` is the automaton of a publication in `R`: a
task that has stored a manifest caches it, then publishes it.
-/

namespace Locast.Server

open Locast.Lib Locast.Protocol Locast.Rooms

/-- What tasks do outside the locks, and the publications they take a lock for. -/
def Effect.outside (crates : Crates) : Effect → Prop
  | .section id (.manifestPublish _ pubkey m) => manifestRefusal crates id pubkey m = none
  | .publish _ item => item.payload.isRoster = true ∨ item.payload.isRelayed = true
  | .store request => request.isManifest = false
  | _ => True

variable {crates : Crates}

/-- What tells of participants or is relayed is no manifest. -/
lemma not_isManifest {payload : WirePayload}
    (h : payload.isRoster = true ∨ payload.isRelayed = true) : payload.isManifest = false := by
  cases payload <;> first | rfl | rcases h with h | h <;> cases h

/-- What a task does that publishes no manifest. -/
def Effect.plain : Effect → Prop
  | .section _ sec => publishes sec = false
  | .publish _ item => item.payload.isRoster = true ∨ item.payload.isRelayed = true
  | .store request => request.isManifest = false
  | .putManifest .. | .publishManifest .. => False
  | _ => True

lemma plain_of_benign {e : Effect} (he : e.benign = true) : e.plain := by
  cases e <;> first | exact trivial | cases he

lemma plain_of_mild {e : Effect} (he : e.mild) : e.plain := by
  cases e with
  | «section» id sec => exact he.2
  | publish id item => exact he.2
  | store request => cases request <;> first | exact he | exact he.elim
  | putManifest | publishManifest => exact he.elim
  | _ => exact trivial

lemma outside_of_plain {e : Effect} (he : e.plain) : e.outside crates := by
  cases e with
  | «section» id sec => cases sec <;> first | exact trivial | cases he
  | publish id item => exact he
  | store request => exact he
  | _ => exact trivial

/-! ### The automaton of a publication -/

/-- A manifest that a task has stored and has still to publish. -/
structure Pending where
  manifest : CachedManifest
  cached : Bool

/-- **The automaton of a publication in `R`.** -/
def publishing (crates : Crates) (R : Uuid) : Automaton Effect Effect.Resp (Option Pending) where
  allows g e := e.outside crates ∧ match e with
    | .section id sec => id = R → publishes sec = true → g = none
    | .putManifest id c => id = R → g = some ⟨c, false⟩
    | .publishManifest id c => id = R → g = some ⟨c, true⟩
    | _ => True
  expects := Effect.Answers
  next g e r := match e, r with
    | .section id sec, r =>
      if id = R then ((sec.published r).map fun c => ⟨c, false⟩).or g else g
    | .putManifest id c, _ => if id = R then some ⟨c, true⟩ else g
    | .publishManifest id _, _ => if id = R then none else g
    | _, _ => g

variable {R : Uuid}

/-- Only a publication publishes. -/
lemma published_of_not_publishes {sec : Section} (h : publishes sec = false) (r : sec.Reply) :
    sec.published r = none := by
  cases sec <;> first | rfl | cases h

lemma publishing_plain {e : Effect} (he : e.plain) (g : Option Pending) :
    (publishing crates R).allows g e ∧ ∀ r, (publishing crates R).expects e r →
      (publishing crates R).next g e r = g := by
  have ho : e.outside crates := outside_of_plain he
  cases e with
  | «section» id sec =>
    refine ⟨⟨ho, fun _ h => ?_⟩, fun r _ => ?_⟩
    · rw [show publishes sec = false from he] at h
      cases h
    · simp [publishing, published_of_not_publishes he r]
  | putManifest | publishManifest => exact he.elim
  | _ => exact ⟨⟨ho, trivial⟩, fun _ _ => rfl⟩

/-- A plain program. -/
lemma Only.plain {α : Type} {Q : α → Prop} {p : Proc α} (h : Only Effect.mild Q p) :
    Only Effect.plain (fun _ => True) p := h.mono (fun _ => plain_of_mild) fun _ _ => trivial

/-- A plain program ends as it starts. -/
lemma Only.pendsNone {α : Type} {Q : α → Prop} {p : Proc α} (h : Only Effect.plain Q p) :
    p.Sat (publishing crates R) (fun _ g => g = none) none :=
  (h.sat (fun _ _ h => h) fun _ he => publishing_plain he none).mono fun _ _ h => h.2

/-! ### The programs -/

namespace Proc

lemma create_plain (title : String) (u : Uuid) (pubkey : PubKey) (migration : Bool) (nowMs : ℤ) :
    Only Effect.plain (fun _ => True) (create title u pubkey migration nowMs) :=
  create_only (fun _ => plain_of_benign) title u pubkey migration nowMs (fun _ _ => rfl)
    (fun _ => rfl) (fun _ _ _ => trivial) (fun _ _ => trivial) fun _ => trivial

lemma leaveRoom_plain (u : Uuid) (wanted : Option Uuid) (intentional : Bool) (nowMs : ℤ) :
    Only Effect.plain (fun _ => True) (leaveRoom u wanted intentional nowMs) :=
  leaveRoom_only (fun _ => plain_of_benign) u wanted intentional nowMs (fun _ _ => rfl)
    (fun _ _ _ h => .inl h) fun _ _ _ => trivial

lemma onConnectionLost_plain (u : Uuid) (nowMs : ℤ) :
    Only Effect.plain (fun _ => True) (onConnectionLost u nowMs) := by
  refine .next trivial fun ids => ?_
  refine .bind (roomsWithMember_only (fun _ => plain_of_benign) u ids) fun mine _ => ?_
  split
  · exact trivial
  · exact .bind (only_collect _ fun id _ => connectionLostInRoom_only (fun _ => plain_of_benign)
      u nowMs id rfl (fun _ h => .inl h) (fun _ => trivial) rfl rfl) fun _ _ => trivial

/-- The events of a sweep of grace tell of the participants. -/
lemma sweep_plain (nowMs : ℤ) (ids : List Uuid) :
    Only Effect.plain (fun replies => ∀ r ∈ eventsOf replies, r.2.payload.isRoster = true)
      (sweep (.grace nowMs) ids) := by
  refine Prog.sat_collect (I := fun (replies : List (Uuid × Option RoomEvent)) (_ : Unit) =>
    ∀ r ∈ eventsOf replies, r.2.payload.isRoster = true) (fun id _ replies g' h => ?_)
    fun r hr => absurd hr List.not_mem_nil
  refine ⟨rfl, fun (reply : Option RoomEvent) hreply => ?_⟩
  have ha : Section.Answers (.grace nowMs) reply := hreply
  intro r (hr : r ∈ eventsOf (replies ++ [(id, reply)]))
  rw [eventsOf, List.filterMap_append] at hr
  rcases List.mem_append.1 hr with hr | hr
  · exact h r hr
  · obtain ⟨pair, hpair, hevent⟩ := List.mem_filterMap.1 hr
    rw [List.mem_singleton.1 hpair] at hevent
    obtain ⟨e, rfl, rfl⟩ := Option.map_eq_some_iff.1 hevent
    exact ha.2

lemma tickGrace_plain (nowMs : ℤ) :
    Only Effect.plain (fun _ => True) (tickGrace nowMs) := by
  refine .next trivial fun ids => ?_
  refine .bind (sweep_plain nowMs ids) fun replies hroster => ?_
  refine .bind (only_forEach _ fun r hr => .next (.inl (hroster r hr)) fun _ => trivial)
    fun _ _ => ?_
  refine .bind (only_forEach _ fun id _ => .next rfl fun _ => ?_) fun _ _ => trivial
  exact removeRoom_only (fun _ => plain_of_benign) id fun _ => trivial

/-- A publication is checked before the lock is taken, and its manifest cached before it goes
out. -/
lemma handleManifestPublish_publishing {envelope : Envelope} (u : Uuid) (pubkey : PubKey)
    (p : Except String MediaManifest) :
    (handleManifestPublish crates envelope p u pubkey).Sat (publishing crates R)
      (fun out g => out.events = [] ∧ g = none) none := by
  have hrefused {out : RoomDispatchOutcome} (h : out.events = []) :
      (pure out : Proc RoomDispatchOutcome).Sat (publishing crates R)
        (fun out g => out.events = [] ∧ g = none) none := ⟨h, rfl⟩
  unfold handleManifestPublish
  split
  · exact hrefused rfl
  · exact hrefused rfl
  · rename_i manifest id hid
    split
    · exact hrefused rfl
    · rename_i hchecked
      refine ⟨⟨trivial, trivial⟩, fun registered _ => ?_⟩
      change Prog.Sat _ _ (if !registered then _ else _) none
      split
      · exact hrefused rfl
      · refine ⟨⟨hchecked, fun _ _ => rfl⟩, fun published _ => ?_⟩
        cases published with
        | error e =>
          refine ⟨rfl, ?_⟩
          simp [publishing, Section.published]
        | ok c =>
          have hnext : (publishing crates R).next none
            (.section id (.manifestPublish u pubkey manifest))
              (.ok c) = if id = R then some ⟨c, false⟩ else none := by
            simp [publishing, Section.published]
          rw [hnext]
          by_cases hR : id = R
          · rw [if_pos hR]
            refine ⟨⟨trivial, fun _ => rfl⟩, fun _ _ => ?_⟩
            simp only [publishing, if_pos hR]
            refine ⟨⟨trivial, fun _ => rfl⟩, fun _ _ => ?_⟩
            simp only [if_pos hR]
            exact hrefused rfl
          · rw [if_neg hR]
            refine ⟨⟨trivial, fun h => absurd h hR⟩, fun _ _ => ?_⟩
            simp only [publishing, if_neg hR]
            refine ⟨⟨trivial, fun h => absurd h hR⟩, fun _ _ => ?_⟩
            simp only [if_neg hR]
            exact hrefused rfl

/-- A command other than a publication. -/
lemma plain_of_dispatched {envelope : Envelope} {u : Uuid} {pubkey : PubKey} {e : Effect}
    (hbody : ∀ p, envelope.body ≠ .manifestPublish p) (h : Dispatched envelope u pubkey e) :
    e.plain := by
  rcases mild_or_section h with h | ⟨id, sec, rfl, hsec⟩ | ⟨-, m, hm⟩
  · exact plain_of_mild h
  · change publishes sec = false
    cases sec <;> first | rfl | exact absurd hsec.2.2 (hbody _)
  · exact absurd hm (hbody _)

lemma dispatchAuthed_publishing (env : Env) {envelope : Envelope} {u : Uuid} {pubkey : PubKey} :
    (dispatchAuthed env envelope u pubkey).Sat (publishing env.crates R) (fun _ g => g = none)
      none := by
  by_cases hbody : ∃ p, envelope.body = .manifestPublish p
  · obtain ⟨p, hbody⟩ := hbody
    refine Prog.Sat.mono (Q := fun out g => out.events = [] ∧ g = none) ?_ fun _ _ h => h.2
    refine dispatchAuthed_sat (fun _ _ => id) (fun e he => publishing_plain (plain_of_benign he) _)
      (fun _ h => ⟨h, rfl⟩) (fun nowMs => ?_) fun out _ id hq _ => ?_
    · unfold handleBody
      rw [hbody]
      exact handleManifestPublish_publishing u pubkey p
    · rw [publishOutcome_of_nil _ id hq.1]
      exact hq
  · exact dispatchAuthed_idle (I := fun g => g = none) rfl (fun _ _ h => h)
      (fun e he => publishing_plain (plain_of_dispatched (fun p hp => hbody ⟨p, hp⟩) he) _)
      (fun title migration nowMs => (create_plain title u pubkey migration nowMs).pendsNone)
      (fun code name nowMs => (join_mild code u pubkey name nowMs).plain.pendsNone)
      (fun roomId nowMs => (leaveRoom_plain u roomId true nowMs).pendsNone)
      fun nowMs => (touch_mild u nowMs).plain.pendsNone

end Proc

/-- **Every program publishes what it has stored.** -/
theorem program_publishing (env : Env) (R : Uuid) (op : Op) :
    (op.program env).Sat (publishing env.crates R) (fun _ g => g = none) none := by
  cases op with
  | create title u pubkey migration nowMs =>
    exact (Proc.create_plain title u pubkey migration nowMs).pendsNone.bind fun _ _ h => h
  | join code u pubkey name nowMs =>
    exact (Proc.join_mild code u pubkey name nowMs).plain.pendsNone.bind fun _ _ h => h
  | leaveRoom u roomId intentional nowMs =>
    exact (Proc.leaveRoom_plain u roomId intentional nowMs).pendsNone.bind fun _ _ h => h
  | onConnectionLost u nowMs =>
    exact (Proc.onConnectionLost_plain u nowMs).pendsNone.bind fun _ _ h => h
  | rejoin u pubkey nowMs =>
    exact (Proc.rejoin_mild u pubkey nowMs).plain.pendsNone.bind fun _ _ h => h
  | touch u nowMs => exact (Proc.touch_mild u nowMs).plain.pendsNone.bind fun _ _ h => h
  | tickGrace nowMs => exact (Proc.tickGrace_plain nowMs).pendsNone.bind fun _ _ h => h
  | tickPresenceTimeout nowMs =>
    exact (Proc.tickPresenceTimeout_mild nowMs).plain.pendsNone.bind fun _ _ h => h
  | tickStaleParticipants nowMs =>
    exact (Proc.tickStaleParticipants_mild env.cfg nowMs).plain.pendsNone.bind fun _ _ h => h
  | dispatch envelope u pubkey =>
    exact (Proc.dispatchAuthed_publishing env).bind fun _ _ h => h

end Locast.Server
