import Locast.Rooms.SectionRefine
import Locast.Server.Frame

/-!
# What a task remembers

Between its sections a task owes the channel the announcements its sections made, and knows which
rooms it has ended.  `session` is the automaton of that memory: membership events are published in
the order they are owed and nothing else announces anybody, only ended rooms are removed, and only
new rooms are inserted.  Every program of the server is within it and ends with nothing owed.
-/

namespace Locast.Server

open Locast.Lib Locast.Protocol Locast.Rooms

/-! ### The automaton -/

/-- A room as `create` makes it. -/
def IsNew (s : RoomState) : Prop :=
  ∃ id code title u pubkey migration nowMs wallMs,
    s = .new id code title u pubkey migration nowMs Cap.host wallMs

/-- The memory of a task: the announcements it owes, in order, each with its room, and the rooms it
saw end. -/
structure Session where
  owed : List (Uuid × Announcement)
  ended : List Uuid

namespace Session

def start : Session where
  owed := []
  ended := []

/-- Nothing is owed. -/
def idle (g : Session) : Prop := g.owed = []

/-- A section's announcements are owed, and its end of the room is known. -/
def heard (g : Session) (id : Uuid) (sec : Section) (r : sec.Reply) : Session where
  owed := g.owed ++ (sec.announced r).map fun a => (id, a)
  ended := if sec.ends r then id :: g.ended else g.ended

/-- A membership item pays the first announcement owed. -/
def paid (g : Session) (item : BroadcastItem) : Session :=
  match item.payload.announcement with
  | none => g
  | some _ => { g with owed := g.owed.tail }

end Session

/-- **The automaton of a task's memory.** -/
def session : Automaton Effect Effect.Resp Session where
  allows g e := match e with
    | .publish id item => item.payload.playback = none ∧
        ∀ a, item.payload.announcement = some a → g.owed.head? = some (id, a)
    | .remove _ id => id ∈ g.ended
    | .insertRoom s => IsNew s
    | _ => True
  expects := Effect.Answers
  next g e r := match e, r with
    | .section id sec, r => g.heard id sec r
    | .publish _ item, _ => g.paid item
    | _, _ => g

lemma session_benign {e : Effect} (he : e.benign = true) (g : Session) :
    session.allows g e ∧ ∀ r, session.expects e r → session.next g e r = g := by
  cases e <;> first | exact ⟨trivial, fun _ _ => rfl⟩ | cases he

lemma Session.heard_of_silent {g : Session} {id : Uuid} {sec : Section} {r : sec.Reply}
    (ha : sec.announced r = []) (he : sec.ends r = false) : g.heard id sec r = g := by
  simp [heard, ha, he]

/-- A command's section announces nobody and ends nothing. -/
lemma commandSection_silent {envelope : Envelope} {u : Uuid} {pubkey : PubKey} {sec : Section}
    (h : Proc.commandSection envelope u pubkey sec) (r : sec.Reply) :
    sec.announced r = [] ∧ sec.ends r = false := by
  cases sec <;> first | exact ⟨rfl, rfl⟩ | exact h.elim

lemma session_dispatched {envelope : Envelope} {u : Uuid} {pubkey : PubKey} {e : Effect}
    (h : Proc.Dispatched envelope u pubkey e) (g : Session) :
    session.allows g e ∧ ∀ r, session.expects e r → session.next g e r = g := by
  cases h with
  | benign h => exact session_benign h g
  | «section» _ hsec =>
    refine ⟨trivial, fun r _ => ?_⟩
    obtain ⟨ha, he⟩ := commandSection_silent hsec r
    exact Session.heard_of_silent ha he
  | relay _ _ ha hp =>
    refine ⟨⟨hp, fun a h => by rw [ha] at h; cases h⟩, fun r _ => ?_⟩
    simp [session, Session.paid, ha]
  | putManifest | publishManifest => exact ⟨trivial, fun _ _ => rfl⟩

/-- A program of effects the session takes no notice of. -/
lemma Only.session {α : Type} {Q : α → Prop} {p : Proc α}
    (h : Only (fun e => e.benign = true) Q p) (g : Session) :
    p.Sat session (fun a g' => Q a ∧ g' = g) g :=
  h.sat (fun _ _ h => h) fun _ he => session_benign he g

/-! ### The registry's programs -/

namespace Proc

variable {g : Session}

/-- A silent effect, then the rest. -/
lemma session_step {α : Type} {e : Effect} {k : e.Resp → Proc α} {Q : α → Session → Prop}
    (ha : session.allows g e) (hn : ∀ r, session.expects e r → session.next g e r = g)
    (hk : ∀ r, e.Answers r → (k r).Sat session Q g) :
    ((.op e .ret : Proc e.Resp) >>= k).Sat session Q g := by
  refine ⟨ha, fun r hr => ?_⟩
  rw [hn r hr]
  exact hk r hr

/-- A benign effect, then the rest. -/
lemma session_next {α : Type} {e : Effect} {k : e.Resp → Proc α} {Q : α → Session → Prop}
    (he : e.benign = true) (hk : ∀ r, (k r).Sat session Q g) :
    ((.op e .ret : Proc e.Resp) >>= k).Sat session Q g :=
  session_step (session_benign he g).1 (session_benign he g).2 fun r _ => hk r

/-- A store call, then the rest. -/
lemma session_store {α : Type} {request : StoreRequest} {k : Except String Unit → Proc α}
    {Q : α → Session → Prop} (hk : ∀ r, (k r).Sat session Q g) :
    (store request >>= k).Sat session Q g :=
  session_step trivial (fun _ _ => rfl) fun r _ => hk r

/-- A section, then the rest. -/
lemma session_heard {α : Type} {id : Uuid} {sec : Section} {k : sec.Reply → Proc α}
    {Q : α → Session → Prop} (hk : ∀ r, sec.Answers r → (k r).Sat session Q (g.heard id sec r)) :
    (locked id sec >>= k).Sat session Q g := ⟨trivial, hk⟩

/-- A section with nothing to announce and no end to know of, then the rest. -/
lemma session_section {α : Type} {id : Uuid} {sec : Section} {k : sec.Reply → Proc α}
    {Q : α → Session → Prop} (hs : ∀ r, sec.announced r = [] ∧ sec.ends r = false)
    (hk : ∀ r, sec.Answers r → (k r).Sat session Q g) :
    (locked id sec >>= k).Sat session Q g :=
  session_step trivial (fun r _ => Session.heard_of_silent (hs r).1 (hs r).2) hk

lemma create_session (title : String) (u : Uuid) (pubkey : PubKey) (migration : Bool) (nowMs : ℤ)
    (hg : g.idle) :
    (create title u pubkey migration nowMs).Sat session (fun _ g' => g'.idle) g := by
  refine Prog.Sat.bind ((pickCode_only (fun _ h => h) _).session g) fun picked g' h => ?_
  obtain ⟨-, rfl⟩ := h
  cases picked with
  | error e => exact hg
  | ok code =>
    refine session_next rfl fun id => session_store fun inserted => ?_
    cases inserted with
    | error e => exact hg
    | ok _ =>
      refine session_store fun added => ?_
      cases added with
      | error e => exact hg
      | ok _ =>
        refine session_next rfl fun wallMs => ?_
        dsimp only
        split
        · exact hg
        · exact session_step ⟨id, code, title, u, pubkey, migration, nowMs, wallMs, rfl⟩
            (fun _ _ => rfl) fun _ _ => session_step trivial (fun _ _ => rfl) fun _ _ =>
              session_step trivial (fun _ _ => rfl) fun _ _ => hg

lemma join_session (code : String) (u : Uuid) (pubkey : PubKey) (name : String) (nowMs : ℤ)
    (hg : g.idle) : (join code u pubkey name nowMs).Sat session (fun _ g' => g'.idle) g := by
  refine session_next rfl fun found => ?_
  cases found with
  | none => exact hg
  | some id =>
    refine session_next rfl fun registered => ?_
    change Prog.Sat session _ (if !registered then _ else _) g
    split
    · exact hg
    · refine session_heard fun joined hj => ?_
      cases joined with
      | error e =>
        change (g.heard id (.join u pubkey name nowMs) (.error e)).idle
        simp [Session.heard, Section.announced, Session.idle, show g.owed = [] from hg]
      | ok out =>
        obtain ⟨ha, hp⟩ := hj
        have howed : (g.heard id (.join u pubkey name nowMs) (.ok out)).owed =
            [(id, .joined u)] := by
          simp [Session.heard, Section.announced, show g.owed = [] from hg]
        refine ⟨⟨hp, fun a h => ?_⟩, fun _ _ => ?_⟩
        · rw [howed]
          rw [eventToBroadcastItem_payload, RoomEvent.payload_announcement, ha] at h
          cases h
          rfl
        · change (Session.paid (g.heard id (.join u pubkey name nowMs) (.ok out)) _).idle
          rw [Session.paid, eventToBroadcastItem_payload, RoomEvent.payload_announcement, ha]
          simp only [Session.idle, howed, List.tail_cons]

/-- Publishing a list of events pays the announcements they make. -/
lemma announce_session {f : RoomEvent → BroadcastItem} (hf : ∀ e, (f e).payload = e.payload)
    {id : Uuid} {events : List RoomEvent} (hp : ∀ e ∈ events, e.payload.isRoster = true)
    (hg : g.owed = (events.filterMap RoomEvent.announcement).map fun a => (id, a)) :
    (Prog.forEach (fun e => publish id (f e)) events).Sat session
      (fun _ g' => g'.idle ∧ g'.ended = g.ended) g := by
  induction events generalizing g with
  | nil => exact ⟨hg, rfl⟩
  | cons e events ih =>
    refine ⟨⟨by rw [hf]; exact WirePayload.playback_of_isRoster (hp e List.mem_cons_self),
      fun a h => ?_⟩, fun _ _ => ?_⟩
    · rw [hf, RoomEvent.payload_announcement] at h
      simp [hg, h]
    · have hp' (e' : RoomEvent) (he : e' ∈ events) := hp e' (List.mem_cons_of_mem _ he)
      have hpay : (f e).payload.announcement = e.announcement := by
        rw [hf, RoomEvent.payload_announcement]
      change Prog.Sat session _ (Prog.forEach (fun e => publish id (f e)) events) (g.paid (f e))
      cases ha : e.announcement with
      | none =>
        have : g.paid (f e) = g := by rw [Session.paid, hpay, ha]
        rw [this]
        exact ih hp' (by simpa [ha] using hg)
      | some a =>
        have hpaid : g.paid (f e) = { g with owed := g.owed.tail } := by
          rw [Session.paid, hpay, ha]
        refine (ih hp' ?_).mono fun _ g' h => ⟨h.1, h.2.trans ?_⟩
        · rw [hpaid]
          simp [hg, ha]
        · rw [hpaid]

/-- A task removes a room it saw end. -/
lemma removeRoom_session {id : Uuid} (hid : id ∈ g.ended) :
    (removeRoom id).Sat session (fun _ g' => g' = g) g := by
  have hremove (map : RegistryMap) : session.allows g (.remove map id) := hid
  refine session_step (hremove .byId) (fun _ _ => rfl) fun found _ => ?_
  split
  · exact session_next rfl fun s => session_step (hremove .channel) (fun _ _ => rfl) fun _ _ =>
      session_step (hremove .manifestCache) (fun _ _ => rfl) fun _ _ => rfl
  · exact session_step (hremove .manifestCache) (fun _ _ => rfl) fun _ _ => rfl

lemma leaveRoom_session (u : Uuid) (wanted : Option Uuid) (intentional : Bool) (nowMs : ℤ)
    (hg : g.idle) :
    (leaveRoom u wanted intentional nowMs).Sat session (fun _ g' => g'.idle) g := by
  refine session_next rfl fun ids => ?_
  refine Prog.Sat.bind ((findRoomOf_only (fun _ h => h) u wanted ids).session g)
    fun found g' h => ?_
  obtain ⟨-, rfl⟩ := h
  cases found with
  | none => exact hg
  | some id =>
    refine session_heard fun left hleft => ?_
    cases left with
    | none =>
      change (g'.heard id (.leave u intentional nowMs) none).idle
      simp [Session.heard, Section.announced, Session.idle, show g'.owed = [] from hg]
    | some reply =>
      refine Prog.Sat.bind (announce_session (fun _ => rfl) hleft ?_) fun _ g'' h => ?_
      · simp [Session.heard, Section.announced, show g'.owed = [] from hg]
      · obtain ⟨hidle, hended⟩ := h
        change Prog.Sat session _ (if reply.ended then _ else _) g''
        split
        · rename_i hend
          have hmem : id ∈ g''.ended := by
            rw [hended]
            simp [Session.heard, Section.ends, hend]
          exact (removeRoom_session hmem).bind fun _ _ h => h ▸ hidle
        · exact session_next rfl fun s => hidle

lemma roomsWithMember_session {α : Type} {Q : α → Session → Prop} {k : List Uuid → Proc α}
    (u : Uuid) (ids : List Uuid) (hk : ∀ mine, (k mine).Sat session Q g) :
    (roomsWithMember u ids >>= k).Sat session Q g := by
  refine Prog.Sat.bind ((roomsWithMember_only (fun _ h => h) u ids).session g) fun mine g' h => ?_
  rw [h.2]
  exact hk mine

lemma connectionLostInRoom_session (u : Uuid) (nowMs : ℤ) (id : Uuid) (hg : g.idle) :
    (connectionLostInRoom u nowMs id).Sat session (fun _ g' => g'.idle) g := by
  refine session_next rfl fun s => ?_
  split
  · refine Prog.Sat.bind (leaveRoom_session u _ _ _ hg) fun left g' h => ?_
    cases left <;> exact h
  · refine session_store fun updated => ?_
    cases updated with
    | error e => exact hg
    | ok _ => exact session_section (fun _ => ⟨rfl, rfl⟩) fun _ _ => hg

/-- The loop over a user's rooms. -/
lemma collect_session {α β : Type} {f : α → Proc β}
    (hf : ∀ a (g : Session), g.idle → (f a).Sat session (fun _ g' => g'.idle) g) (l : List α)
    (hg : g.idle) : (Prog.collect f l).Sat session (fun _ g' => g'.idle) g :=
  Prog.sat_collect (I := fun _ g' => g'.idle) (fun x _ _ g' hg' => hf x g' hg') hg

lemma onConnectionLost_session (u : Uuid) (nowMs : ℤ) (hg : g.idle) :
    (onConnectionLost u nowMs).Sat session (fun _ g' => g'.idle) g := by
  refine session_next rfl fun ids => roomsWithMember_session u ids fun mine => ?_
  split
  · exact hg
  · exact Prog.Sat.bind
      (collect_session (fun id g' hg' => connectionLostInRoom_session u nowMs id hg') mine hg)
      fun _ _ h => h

lemma rejoinInRoom_session (u : Uuid) (pubkey : PubKey) (nowMs : ℤ) (id : Uuid) (hg : g.idle) :
    (rejoinInRoom u pubkey nowMs id).Sat session (fun _ g' => g'.idle) g := by
  refine session_next rfl fun s => session_next rfl fun s' => ?_
  change Prog.Sat session _
    (if isHostUser s u && s'.hostDisconnectDeadlineMs.isSome then _ else _) g
  split
  · refine session_store fun cleared => ?_
    cases cleared with
    | error e => exact hg
    | ok _ =>
      refine session_next rfl fun s'' => ?_
      simp only
      split
      · exact hg
      · refine session_store fun added => ?_
        cases added with
        | error e => exact hg
        | ok _ =>
          refine session_section (fun _ => ⟨rfl, rfl⟩) fun _ _ => ?_
          refine session_step ⟨rfl, fun a h => ?_⟩ (fun _ _ => rfl) fun _ _ => hg
          cases h
  · refine session_store fun updated => ?_
    cases updated with
    | error e => exact hg
    | ok _ => exact session_section (fun _ => ⟨rfl, rfl⟩) fun _ _ => hg

lemma rejoin_session (u : Uuid) (pubkey : PubKey) (nowMs : ℤ) (hg : g.idle) :
    (rejoin u pubkey nowMs).Sat session (fun _ g' => g'.idle) g := by
  refine session_next rfl fun ids => roomsWithMember_session u ids fun mine => ?_
  split
  · exact hg
  · refine Prog.Sat.bind
      (collect_session (fun id g' hg' => rejoinInRoom_session u pubkey nowMs id hg') mine hg)
      fun results g' h => ?_
    split <;> exact h

lemma touchRooms_session (u : Uuid) (nowMs : ℤ) (ids : List Uuid) (hg : g.idle) :
    (touchRooms u nowMs ids).Sat session (fun _ g' => g'.idle) g := by
  induction ids with
  | nil => exact hg
  | cons id ids ih =>
    refine session_next rfl fun s => ?_
    split
    · exact ih
    · refine session_section (fun _ => ⟨rfl, rfl⟩) fun found _ => ?_
      split
      · exact hg
      · exact ih

lemma touch_session (u : Uuid) (nowMs : ℤ) (hg : g.idle) :
    (touch u nowMs).Sat session (fun _ g' => g'.idle) g :=
  session_next rfl fun ids => touchRooms_session u nowMs ids hg

/-- The announcements a sweep's replies make, room by room. -/
def announcedBy (sec : Section) (replies : List (Uuid × sec.Reply)) : List (Uuid × Announcement) :=
  replies.flatMap fun r => (sec.announced r.2).map fun a => (r.1, a)

/-- The rooms a sweep saw end. -/
def endedBy (sec : Section) (replies : List (Uuid × sec.Reply)) : List Uuid :=
  (replies.filter fun r => sec.ends r.2).map (·.1)

/-- After a sweep its announcements are owed, its ended rooms are known, and every reply is as
expected. -/
lemma sweep_session (sec : Section) (ids : List Uuid) (hg : g.idle) :
    (sweep sec ids).Sat session (fun replies g' => g'.owed = announcedBy sec replies ∧
      (∀ id ∈ endedBy sec replies, id ∈ g'.ended) ∧ ∀ r ∈ replies, sec.Answers r.2) g := by
  refine Prog.sat_collect
    (I := fun (replies : List (Uuid × sec.Reply)) (g' : Session) =>
      g'.owed = announcedBy sec replies ∧ (∀ id ∈ endedBy sec replies, id ∈ g'.ended) ∧
      ∀ r ∈ replies, sec.Answers r.2)
    (fun id _ replies g' hg' => ?_) ⟨hg, by simp [endedBy], by simp⟩
  obtain ⟨howed, hended, hanswers⟩ := hg'
  refine ⟨trivial, fun r hr => ⟨?_, fun id' hid' => ?_, fun r' hr' => ?_⟩⟩
  · change g'.owed ++ _ = _
    simp [howed, announcedBy]
  · change id' ∈ (g'.heard id sec r).ended
    simp only [endedBy, List.filter_append, List.map_append, List.mem_append] at hid'
    rcases hid' with hid' | hid'
    · simp only [Session.heard]
      split
      · exact List.mem_cons_of_mem _ (hended id' hid')
      · exact hended id' hid'
    · rw [List.filter_singleton, Bool.cond_eq_ite] at hid'
      split at hid'
      · rename_i he
        simp only [List.map_singleton, List.mem_singleton] at hid'
        simp only [Session.heard, if_pos he, hid']
        exact List.mem_cons_self
      · exact absurd hid' List.not_mem_nil
  · rcases List.mem_append.1 hr' with hr' | hr'
    · exact hanswers r' hr'
    · rw [List.mem_singleton.1 hr']
      exact hr

/-- The announcements of a tick are the ones it owes. -/
lemma announceTimeouts_session {owed : List (Uuid × Uuid)}
    (hg : g.owed = owed.map fun r => (r.1, .left r.2)) :
    (announceTimeouts owed).Sat session (fun _ g' => g'.idle) g := by
  induction owed generalizing g with
  | nil => exact hg
  | cons r owed ih =>
    refine ⟨⟨rfl, fun a h => ?_⟩, fun _ _ => ?_⟩
    · cases h
      simp [hg]
    · refine ih ?_
      change g.owed.tail = _
      rw [hg]
      rfl

lemma found_announced (sec : Section) {f : sec.Reply → List Uuid}
    (hf : ∀ r, sec.announced r = (f r).map .left) (replies : List (Uuid × sec.Reply)) :
    announcedBy sec replies =
      (replies.flatMap fun r => (f r.2).map fun u => (r.1, u)).map fun r => (r.1, .left r.2) := by
  simp [announcedBy, List.map_flatMap, hf, Function.comp_def]

lemma tickPresenceTimeout_session (nowMs : ℤ) (hg : g.idle) :
    (tickPresenceTimeout nowMs).Sat session (fun _ g' => g'.idle) g := by
  refine session_next rfl fun ids => ?_
  change Prog.Sat session _ (sweep (.presenceTimeout nowMs) ids >>= _) g
  refine Prog.Sat.bind (sweep_session _ ids hg) fun replies g' h => ?_
  refine Prog.Sat.bind (announceTimeouts_session (h.1.trans ?_)) fun _ _ h => h
  exact found_announced (.presenceTimeout nowMs) (fun _ => rfl) replies

lemma tickStaleParticipants_session (cfg : RoomRegistryConfig) (nowMs : ℤ) (hg : g.idle) :
    (tickStaleParticipants cfg nowMs).Sat session (fun _ g' => g'.idle) g := by
  refine session_next rfl fun ids => ?_
  change Prog.Sat session _ (sweep (.stale nowMs) ids >>= _) g
  refine Prog.Sat.bind (sweep_session _ ids hg) fun replies g' h => ?_
  refine Prog.Sat.bind (announceTimeouts_session (h.1.trans ?_)) fun _ g'' hidle => ?_
  · exact found_announced (.stale nowMs) (fun _ => rfl) replies
  · refine Prog.Sat.bind (Prog.sat_forEach (I := fun _ g => g.idle)
      (fun id l' g hg => session_store fun _ => hg) hidle) fun _ _ h => h

lemma tickGrace_session (nowMs : ℤ) (hg : g.idle) :
    (tickGrace nowMs).Sat session (fun _ g' => g'.idle) g := by
  refine session_next rfl fun ids => ?_
  change Prog.Sat session _ (sweep (.grace nowMs) ids >>= _) g
  refine Prog.Sat.bind (sweep_session _ ids hg) fun replies g' h => ?_
  obtain ⟨howed, hended, hanswers⟩ := h
  have hidle : g'.idle := by
    rw [Session.idle, howed]
    exact List.flatMap_eq_nil_iff.2 fun r _ => rfl
  have hout (r : Uuid × RoomEvent)
      (hr : r ∈ replies.filterMap fun r => r.2.map fun (e : RoomEvent) => (r.1, e)) :
      ∃ reply ∈ replies, reply.1 = r.1 ∧ reply.2 = some r.2 := by
    obtain ⟨reply, hmem, hreply⟩ := List.mem_filterMap.1 hr
    obtain ⟨e, he, rfl⟩ := Option.map_eq_some_iff.1 hreply
    exact ⟨reply, hmem, rfl, he⟩
  refine Prog.Sat.bind (Prog.sat_forEach
    (I := fun (l : List (Uuid × RoomEvent)) (g : Session) => g = g' ∧
      ∀ r ∈ l, ∃ reply ∈ replies, reply.1 = r.1 ∧ reply.2 = some r.2)
    (fun r l' g'' hg'' => ?_) ⟨rfl, hout⟩) fun _ g'' h => ?_
  · obtain ⟨rfl, hl⟩ := hg''
    obtain ⟨reply, hmem, -, he⟩ := hl r List.mem_cons_self
    have ha := hanswers reply hmem
    rw [he] at ha
    have hann : r.2.payload.announcement = none := by
      rw [RoomEvent.payload_announcement]
      exact ha.1
    refine ⟨⟨WirePayload.playback_of_isRoster ha.2, fun a h => ?_⟩, fun _ _ =>
      ⟨?_, fun r' hr' => hl r' (List.mem_cons_of_mem _ hr')⟩⟩
    · rw [eventToBroadcastItem_payload, hann] at h
      cases h
    · change g''.paid _ = g''
      rw [Session.paid, eventToBroadcastItem_payload, hann]
  · obtain ⟨rfl, -⟩ := h
    refine Prog.Sat.bind (Prog.sat_forEach
      (I := fun (l : List Uuid) (g : Session) => g.idle ∧ ∀ id ∈ l, id ∈ g.ended)
      (fun id l' g hg => ?_) ⟨hidle, fun id hid => ?_⟩) fun _ _ h => h.1
    · refine session_store fun _ =>
        (removeRoom_session (hg.2 id List.mem_cons_self)).mono fun _ g' h => ?_
      rw [h]
      exact ⟨hg.1, fun id' hid' => hg.2 id' (List.mem_cons_of_mem _ hid')⟩
    · obtain ⟨r, hr, rfl⟩ := List.mem_map.1 hid
      obtain ⟨hr, hclosed⟩ := List.mem_filter.1 hr
      obtain ⟨reply, hmem, hid, he⟩ := hout r hr
      refine hended _ (List.mem_map.2 ⟨reply, List.mem_filter.2 ⟨hmem, ?_⟩, hid⟩)
      rw [he]
      unfold isClosed at hclosed
      split at hclosed
      · rename_i hev
        simp [Section.ends, hev]
      · cases hclosed

end Proc

/-- **Every program is within the session and pays what it owes.** -/
theorem program_session (env : Env) (op : Op) :
    (op.program env).Sat session (fun _ g => g.idle) .start := by
  have hidle : Session.start.idle := rfl
  cases op with
  | create title u pubkey migration nowMs =>
    exact (Proc.create_session title u pubkey migration nowMs hidle).bind fun _ _ h => h
  | join code u pubkey name nowMs =>
    exact (Proc.join_session code u pubkey name nowMs hidle).bind fun _ _ h => h
  | leaveRoom u roomId intentional nowMs =>
    exact (Proc.leaveRoom_session u roomId intentional nowMs hidle).bind fun _ _ h => h
  | onConnectionLost u nowMs =>
    exact (Proc.onConnectionLost_session u nowMs hidle).bind fun _ _ h => h
  | rejoin u pubkey nowMs =>
    exact (Proc.rejoin_session u pubkey nowMs hidle).bind fun _ _ h => h
  | touch u nowMs => exact (Proc.touch_session u nowMs hidle).bind fun _ _ h => h
  | tickGrace nowMs => exact (Proc.tickGrace_session nowMs hidle).bind fun _ _ h => h
  | tickPresenceTimeout nowMs =>
    exact (Proc.tickPresenceTimeout_session nowMs hidle).bind fun _ _ h => h
  | tickStaleParticipants nowMs =>
    exact (Proc.tickStaleParticipants_session env.cfg nowMs hidle).bind fun _ _ h => h
  | dispatch envelope u pubkey =>
    refine Prog.Sat.bind (Proc.dispatchAuthed_idle (I := Session.idle) hidle (fun _ _ h => h)
      (fun e he => session_dispatched he _)
      (fun title migration nowMs => Proc.create_session title u pubkey migration nowMs hidle)
      (fun code name nowMs => Proc.join_session code u pubkey name nowMs hidle)
      (fun roomId nowMs => Proc.leaveRoom_session u roomId true nowMs hidle)
      (fun nowMs => Proc.touch_session u nowMs hidle)) fun _ _ h => h

end Locast.Server
