import Locast.Rooms.Durable
import Locast.Server.Reachable

/-!
# What a task that makes or ends a room has to do

A task whose section ended room `R` has to announce it, to have its row closed and to remove it, in
this order; a task that gave it its handle has to insert its code and its channel.  `closing R` is
the automaton that counts what is still due: only such tasks publish a `ROOM_CLOSED` for `R`, call
`end_room` on it, remove it, or insert its code or its channel, and every program ends with nothing
due.
-/

namespace Locast.Server

open Locast.Lib Locast.Protocol Locast.Rooms

/-! ### What a reply says -/

lemma isClosed_payload (e : RoomEvent) : e.payload.isClosed = Proc.isClosed e := by
  cases e <;> rfl

/-- A task learns of the end of its room with exactly one closing to announce. -/
def closes : (sec : Section) → sec.Reply → Prop
  | .leave .., some reply =>
    (reply.events.filter Proc.isClosed).length = if reply.ended then 1 else 0
  | .grace _, some event => Proc.isClosed event = true
  | _, _ => True

/-- The section has the room's row closed itself. -/
def closesRow : Section → Bool
  | .leave .. => true
  | _ => false

lemma LeaveCase.closes {cfg : RoomRegistryConfig} {s : RoomState} {leaver : ParticipantRecord}
    {nowMs : ℤ} {intentional : Bool} {out : LeaveOutcome} (hopen : s.state ≠ .ended)
    (h : LeaveCase cfg s leaver nowMs intentional out) :
    (out.events.filter Proc.isClosed).length = if out.state.state = .ended then 1 else 0 := by
  have helect {t : RoomState} {v : Uuid} {m : RoomState} (he : electNewHost t = some (v, m)) :
      m.state = t.state := by
    obtain ⟨-, -, -, -, rfl⟩ := electNewHost_spec he
    rfl
  cases h with
  | view =>
    rw [if_neg (by exact hopen)]
    rfl
  | close => rfl
  | migrate v m _ _ he =>
    have hm : (leaveMigrating m leaver v nowMs).state.state ≠ .ended := by
      change m.state ≠ .ended
      rw [helect he]
      exact hopen
    rw [if_neg hm]
    rfl
  | wait =>
    have hw : (leaveWaiting cfg s leaver.userId nowMs).state.state ≠ .ended := by
      simp only [leaveWaiting]
      split
      · cases he : electNewHost { s.mark leaver.userId .reconnecting nowMs with
            hostDisconnectDeadlineMs := some (nowMs + cfg.hostDisconnectGraceMs) } with
        | none => exact hopen
        | some e =>
          change e.2.state ≠ .ended
          rw [helect he]
          exact hopen
      · exact hopen
    rw [if_neg hw]
    rfl

/-- The one leave that ends a room has its row closed. -/
lemma leave_endRoom {cfg : RoomRegistryConfig} {s : RoomState} {u : Uuid} {intentional : Bool}
    {nowMs : ℤ} {out : LeaveOutcome}
    (h : leaveLocked cfg s u intentional nowMs = some out) (he : out.state.state = .ended) :
    .endRoom s.id nowMs ∈ out.requests := by
  obtain ⟨hopen, leaver, -, -, hcase⟩ := leaveLocked_spec h
  have hclosed := LeaveCase.closes hopen hcase
  rw [if_pos he] at hclosed
  cases hcase with
  | close => exact List.mem_singleton.2 rfl
  | _ => exact absurd hclosed Nat.zero_ne_one

lemma section_closes {env : SectionEnv} {store : Store} {s : RoomState} {sec : Section}
    {out : SectionOutcome sec.Reply} (h : sec.run env store s = some out) :
    closes sec out.reply := by
  cases sec with
  | leave u intentional nowMs =>
    simp only [Section.run] at h
    split at h
    · cases h
      exact trivial
    · rename_i out' hl
      cases h
      obtain ⟨hopen, leaver, -, -, hcase⟩ := leaveLocked_spec hl
      simpa [closes, SectionOutcome.quiet] using LeaveCase.closes hopen hcase
  | grace nowMs =>
    cases h
    rcases processRoomGrace_spec s nowMs with hg | ⟨deadline, -, -, hg⟩ <;>
      simp [hg, closes, SectionOutcome.quiet, Proc.isClosed]
  | _ => exact trivial

/-! ### The automaton -/

/-- What a task has still to do about the end of a room: announcements, calls of `end_room`,
removals of the handle, and removals of the channel and of the cached manifest that these entail.
And about its creation: insertions of its code and of its channel. -/
structure Dues where
  announce : ℕ
  persist : ℕ
  remove : ℕ
  channel : ℕ
  uncache : ℕ
  coding : ℕ
  opening : ℕ
  deriving DecidableEq

namespace Dues

def none : Dues := ⟨0, 0, 0, 0, 0, 0, 0⟩

/-- The room got its handle. -/
def created (g : Dues) : Dues := { g with coding := g.coding + 1, opening := g.opening + 1 }

/-- The room ended in this section. -/
def ended (g : Dues) (sec : Section) : Dues :=
  { g with
    announce := g.announce + 1
    persist := if closesRow sec then g.persist else g.persist + 1
    remove := g.remove + 1 }

/-- Whether the room may be removed from the map: what comes before is done. -/
def mayRemove (g : Dues) : RegistryMap → Prop
  | .byId => g.announce < g.remove ∧ g.persist < g.remove
  | .channel => 0 < g.channel
  | .manifestCache => g.channel < g.uncache

/-- The room was removed from the map; `found` tells whether it was there. -/
def removed (g : Dues) (found : Bool) : RegistryMap → Dues
  | .byId =>
    { g with
      remove := g.remove - 1
      channel := if found then g.channel + 1 else g.channel
      uncache := g.uncache + 1 }
  | .channel => { g with channel := g.channel - 1 }
  | .manifestCache => { g with uncache := g.uncache - 1 }

/-- No more is due before a removal than removals, and a channel comes after a code. -/
structure Ordered (g : Dues) : Prop where
  announce : g.announce ≤ g.remove
  persist : g.persist ≤ g.remove
  channel : g.channel ≤ g.uncache
  coding : g.coding ≤ g.opening

end Dues

/-- **The automaton of a room's creation and end.** -/
def closing (R : Uuid) : Automaton Effect Effect.Resp Dues where
  allows g e := match e with
    | .publish id item => id = R → item.payload.isClosed = true → 0 < g.announce
    | .store (.endRoom id _) => id = R → 0 < g.persist
    | .remove map id => id = R → g.mayRemove map
    | .insertRoom s => IsNew s
    | .insertCode _ id => id = R → 0 < g.coding
    | .insertChannel id => id = R → g.coding < g.opening
    | _ => True
  expects e r := e.Answers r ∧ match e, r with
    | .section _ sec, r => closes sec r
    | _, _ => True
  next g e r := match e, r with
    | .section id sec, r => if id = R ∧ sec.ends r = true then g.ended sec else g
    | .publish id item, _ =>
      if id = R ∧ item.payload.isClosed = true then { g with announce := g.announce - 1 } else g
    | .store (.endRoom id _), _ => if id = R then { g with persist := g.persist - 1 } else g
    | .remove map id, found => if id = R then g.removed found map else g
    | .insertRoom s, _ => if s.id = R then g.created else g
    | .insertCode _ id, _ => if id = R then { g with coding := g.coding - 1 } else g
    | .insertChannel id, _ => if id = R then { g with opening := g.opening - 1 } else g
    | _, _ => g

/-- A section that publishes a manifest. -/
def publishes : Section → Bool
  | .manifestPublish .. => true
  | _ => false

/-- Effects that have nothing to do with the end of a room, its creation or its manifests. -/
def Effect.mild : Effect → Prop
  | .section _ sec => (∀ r, sec.ends r = false) ∧ publishes sec = false
  | .publish _ item => item.payload.isClosed = false ∧
    (item.payload.isRoster = true ∨ item.payload.isRelayed = true)
  | .store (.endRoom ..) => False
  | .store request => request.isManifest = false
  | .putManifest .. | .publishManifest .. => False
  | .insertRoom _ | .insertCode .. | .insertChannel _ | .remove .. => False
  | _ => True

variable {R : Uuid} {g : Dues}

lemma closing_mild {e : Effect} (he : e.mild) (g : Dues) :
    (closing R).allows g e ∧ ∀ r, (closing R).expects e r → (closing R).next g e r = g := by
  cases e with
  | «section» id sec => exact ⟨trivial, fun r _ => if_neg fun h => by simp [he.1 r] at h⟩
  | publish id item =>
    have hitem : item.payload.isClosed = false := he.1
    exact ⟨fun _ h => by simp [hitem] at h, fun r _ => if_neg fun h => by simp [hitem] at h⟩
  | store request => cases request <;> first | exact ⟨trivial, fun _ _ => rfl⟩ | exact he.elim
  | putManifest | publishManifest | insertRoom | insertCode | insertChannel | remove =>
    exact he.elim
  | _ => exact ⟨trivial, fun _ _ => rfl⟩

lemma mild_of_benign {e : Effect} (he : e.benign = true) : e.mild := by
  cases e <;> first | exact trivial | cases he

/-- The end of a publication. -/
def Effect.isPublication : Effect → Bool
  | .putManifest .. | .publishManifest .. => true
  | _ => false

/-- A command is mild beside its section and the end of a publication. -/
lemma mild_or_section {envelope : Envelope} {u : Uuid} {pubkey : PubKey} {e : Effect}
    (h : Proc.Dispatched envelope u pubkey e) :
    e.mild ∨ (∃ id sec, e = .section id sec ∧ Proc.commandSection envelope u pubkey sec) ∨
      e.isPublication = true ∧ ∃ m, envelope.body = .manifestPublish (.ok m) := by
  cases h with
  | benign h => exact .inl (mild_of_benign h)
  | @«section» id sec _ hsec => exact .inr (.inl ⟨id, sec, rfl, hsec⟩)
  | putManifest _ hbody _ | publishManifest _ hbody _ => exact .inr (.inr ⟨rfl, _, hbody⟩)
  | @relay _ item _ _ _ _ hw =>
    refine .inl ⟨?_, .inr hw⟩
    cases hp : item.payload <;> first | rfl | simp [hp, WirePayload.isRelayed] at hw

lemma closing_dispatched {envelope : Envelope} {u : Uuid} {pubkey : PubKey} {e : Effect}
    (h : Proc.Dispatched envelope u pubkey e) (g : Dues) :
    (closing R).allows g e ∧ ∀ r, (closing R).expects e r → (closing R).next g e r = g := by
  rcases mild_or_section h with h | ⟨id, sec, rfl, hsec⟩ | ⟨h, -⟩
  · exact closing_mild h g
  · exact ⟨trivial, fun r _ => if_neg fun h => by simp [(commandSection_silent hsec r).2] at h⟩
  · cases e <;> first | exact ⟨trivial, fun _ _ => rfl⟩ | cases h

/-- A mild program leaves the dues alone. -/
lemma Only.keepsDues {α : Type} {Q : α → Prop} {p : Proc α} (h : Only Effect.mild Q p) (g : Dues) :
    p.Sat (closing R) (fun a g' => Q a ∧ g' = g) g :=
  h.sat (fun _ _ h => h.1) fun _ he => closing_mild he g

/-- A mild program ends with nothing due if it starts so. -/
lemma Only.duesNone {α : Type} {Q : α → Prop} {p : Proc α} (h : Only Effect.mild Q p) :
    p.Sat (closing R) (fun _ g' => g' = .none) .none :=
  (h.keepsDues .none).mono fun _ _ h => h.2

/-! ### Mild programs, and creation -/

namespace Proc

/-- A mild effect, then the rest. -/
lemma closing_next {α : Type} {e : Effect} {k : e.Resp → Proc α} {Q : α → Dues → Prop}
    (he : e.mild) (hk : ∀ r, (k r).Sat (closing R) Q g) :
    ((.op e .ret : Proc e.Resp) >>= k).Sat (closing R) Q g := by
  refine ⟨(closing_mild he g).1, fun r hr => ?_⟩
  rw [(closing_mild he g).2 r hr]
  exact hk r

lemma create_closing (title : String) (u : Uuid) (pubkey : PubKey) (migration : Bool) (nowMs : ℤ) :
    (create title u pubkey migration nowMs).Sat (closing R) (fun _ g' => g' = .none) .none := by
  refine Prog.Sat.bind
    (Only.keepsDues (pickCode_only (fun _ => mild_of_benign) _) .none) fun picked g h => ?_
  obtain ⟨-, rfl⟩ := h
  cases picked with
  | error e => exact rfl
  | ok code =>
    refine closing_next trivial fun (id : Uuid) => closing_next rfl fun inserted => ?_
    cases inserted with
    | error e => exact rfl
    | ok _ =>
      refine closing_next rfl fun added => ?_
      cases added with
      | error e => exact rfl
      | ok _ =>
        refine closing_next trivial fun wallMs => ?_
        dsimp only
        split
        · exact rfl
        -- the handle, the code and the channel
        refine ⟨⟨id, code, title, u, pubkey, migration, nowMs, wallMs, rfl⟩, fun _ _ => ?_⟩
        change Prog.Sat (closing R) _ _ (if id = R then Dues.none.created else .none)
        by_cases hid : id = R
        · rw [if_pos hid]
          refine ⟨fun _ => Nat.one_pos, fun _ _ => ?_⟩
          simp only [closing, if_pos hid]
          refine ⟨fun _ => Nat.one_pos, fun _ _ => ?_⟩
          simp only [if_pos hid]
          exact rfl
        · rw [if_neg hid]
          refine ⟨fun h => absurd h hid, fun _ _ => ?_⟩
          simp only [closing, if_neg hid]
          refine ⟨fun h => absurd h hid, fun _ _ => ?_⟩
          simp only [if_neg hid]
          exact rfl

lemma join_mild (code : String) (u : Uuid) (pubkey : PubKey) (name : String) (nowMs : ℤ) :
    Only Effect.mild (fun _ => True) (join code u pubkey name nowMs) := by
  refine .next trivial fun found => ?_
  cases found with
  | none => exact trivial
  | some id =>
    refine .next trivial fun registered => ?_
    split
    · exact trivial
    · refine .step ⟨fun r => by cases r <;> rfl, rfl⟩ fun joined hj => ?_
      cases joined with
      | error e => exact trivial
      | ok out =>
        obtain ⟨ha, -⟩ := hj
        have hevent : out.2.payload.isClosed = false ∧ out.2.payload.isRoster = true := by
          cases he : out.2 <;> simp_all [RoomEvent.announcement, RoomEvent.payload,
            WirePayload.isClosed, WirePayload.isRoster]
        exact .next ⟨hevent.1, .inl hevent.2⟩ fun _ => trivial

lemma touch_mild (u : Uuid) (nowMs : ℤ) : Only Effect.mild (fun _ => True) (touch u nowMs) :=
  touch_only (fun _ => mild_of_benign) u nowMs fun _ => ⟨fun _ => rfl, rfl⟩

lemma rejoinInRoom_mild (u : Uuid) (pubkey : PubKey) (nowMs : ℤ) (id : Uuid) :
    Only Effect.mild (fun _ => True) (rejoinInRoom u pubkey nowMs id) := by
  refine .next trivial fun s => .next trivial fun s' => ?_
  change Only _ _ (if isHostUser s u && s'.hostDisconnectDeadlineMs.isSome then _ else _)
  split
  · refine .next rfl fun cleared => ?_
    cases cleared with
    | error e => exact trivial
    | ok _ =>
      refine .next trivial fun s'' => ?_
      dsimp only
      split
      · exact trivial
      · refine .next rfl fun added => ?_
        cases added with
        | error e => exact trivial
        | ok _ => exact .next ⟨fun _ => rfl, rfl⟩ fun _ => .next ⟨rfl, .inl rfl⟩ fun _ => trivial
  · refine .next rfl fun updated => ?_
    cases updated with
    | error e => exact trivial
    | ok _ => exact .next ⟨fun _ => rfl, rfl⟩ fun _ => trivial

lemma rejoin_mild (u : Uuid) (pubkey : PubKey) (nowMs : ℤ) :
    Only Effect.mild (fun _ => True) (rejoin u pubkey nowMs) := by
  refine .next trivial fun ids => ?_
  refine .bind (roomsWithMember_only (fun _ => mild_of_benign) u ids) fun mine _ => ?_
  split
  · exact trivial
  · refine .bind (only_collect _ fun id _ => rejoinInRoom_mild u pubkey nowMs id)
      fun results _ => ?_
    split <;> exact trivial

lemma sweep_mild {sec : Section} (hsec : ∀ r, sec.ends r = false) (hpub : publishes sec = false)
    (ids : List Uuid) : Only Effect.mild (fun _ => True) (sweep sec ids) :=
  only_collect _ fun _ _ => .next ⟨hsec, hpub⟩ fun _ => trivial

lemma announceTimeouts_mild (gone : List (Uuid × Uuid)) :
    Only Effect.mild (fun _ => True) (announceTimeouts gone) :=
  only_forEach _ fun _ _ => .next ⟨rfl, .inl rfl⟩ fun _ => trivial

lemma tickPresenceTimeout_mild (nowMs : ℤ) :
    Only Effect.mild (fun _ => True) (tickPresenceTimeout nowMs) := by
  refine .next trivial fun ids => .bind (sweep_mild (fun _ => rfl) rfl ids) fun replies _ => ?_
  exact .bind (announceTimeouts_mild _) fun _ _ => trivial

lemma tickStaleParticipants_mild (cfg : RoomRegistryConfig) (nowMs : ℤ) :
    Only Effect.mild (fun _ => True) (tickStaleParticipants cfg nowMs) := by
  refine .next trivial fun ids => .bind (sweep_mild (fun _ => rfl) rfl ids) fun replies _ => ?_
  refine .bind (announceTimeouts_mild _) fun _ _ => ?_
  refine .bind (only_forEach _ fun id _ => ?_) fun _ _ => trivial
  exact .next rfl fun _ => trivial

/-! ### Programs that end rooms -/

/-- The closings in a list of events are due to `R` when they are its own. -/
lemma announce_closing {f : RoomEvent → BroadcastItem} (hf : ∀ e, (f e).payload = e.payload)
    {id : Uuid} {events : List RoomEvent} {g : Dues}
    (hg : id = R → g.announce = (events.filter isClosed).length) :
    (Prog.forEach (fun e => publish id (f e)) events).Sat (closing R)
      (fun _ g' => g' = if id = R then { g with announce := 0 } else g) g := by
  induction events generalizing g with
  | nil =>
    change g = _
    split
    · rename_i hid
      have := hg hid
      cases g
      simp_all
    · rfl
  | cons e events ih =>
    have hclosed : (f e).payload.isClosed = isClosed e := by rw [hf, isClosed_payload]
    refine ⟨fun hid hc => ?_, fun _ _ => ?_⟩
    · rw [hg hid, List.filter_cons_of_pos (by rw [← hclosed, hc])]
      exact Nat.succ_pos _
    · change Prog.Sat (closing R) _ (Prog.forEach (fun e => publish id (f e)) events)
        (if id = R ∧ (f e).payload.isClosed = true then _ else _)
      rw [hclosed]
      by_cases h : id = R ∧ isClosed e = true
      · rw [if_pos h]
        refine (ih fun hid => ?_).mono fun _ g' h' => ?_
        · rw [hg hid, List.filter_cons_of_pos h.2]
          rfl
        · rw [h', if_pos h.1, if_pos h.1]
      · rw [if_neg h]
        refine ih fun hid => ?_
        rw [hg hid, List.filter_cons_of_neg fun he => h ⟨hid, he⟩]

/-- A removal, then the rest. -/
lemma closing_removed {α : Type} {map : RegistryMap} {id : Uuid} {k : Bool → Proc α}
    {Q : α → Dues → Prop} (ha : id = R → g.mayRemove map)
    (hk : ∀ found, (k found).Sat (closing R) Q (if id = R then g.removed found map else g)) :
    (removeFrom map id >>= k).Sat (closing R) Q g := ⟨ha, fun found _ => hk found⟩

/-- A room is removed once everything before it is done. -/
lemma removeRoom_closing {id : Uuid} (hg : id = R → g.announce < g.remove ∧ g.persist < g.remove)
    (hc : g.channel ≤ g.uncache) :
    (removeRoom id).Sat (closing R) (fun _ g' =>
      g' = if id = R then { g with remove := g.remove - 1 } else g) g := by
  have hlt : g.channel < g.uncache + 1 := Nat.lt_succ_of_le hc
  by_cases hid : id = R
  · refine closing_removed hg fun found => ?_
    rw [if_pos hid, if_pos hid]
    cases found with
    | true =>
      refine closing_next trivial fun s => closing_removed (fun _ => Nat.succ_pos _) fun _ => ?_
      rw [if_pos hid]
      refine closing_removed (fun _ => hlt) fun _ => ?_
      rw [if_pos hid]
      rfl
    | false =>
      refine closing_removed (fun _ => hlt) fun _ => ?_
      rw [if_pos hid]
      rfl
  · have hskip (map : RegistryMap) : id = R → g.mayRemove map := fun h => absurd h hid
    refine closing_removed (hskip .byId) fun found => ?_
    rw [if_neg hid, if_neg hid]
    cases found with
    | true =>
      refine closing_next trivial fun s => closing_removed (hskip .channel) fun _ => ?_
      rw [if_neg hid]
      refine closing_removed (hskip .manifestCache) fun _ => ?_
      rw [if_neg hid]
      rfl
    | false =>
      refine closing_removed (hskip .manifestCache) fun _ => ?_
      rw [if_neg hid]
      rfl

lemma leaveRoom_closing (u : Uuid) (wanted : Option Uuid) (intentional : Bool) (nowMs : ℤ) :
    (leaveRoom u wanted intentional nowMs).Sat (closing R) (fun _ g' => g' = .none) .none := by
  refine closing_next trivial fun ids => ?_
  refine Prog.Sat.bind
    ((findRoomOf_only (fun _ => mild_of_benign) u wanted ids).keepsDues .none) fun found g' h => ?_
  obtain ⟨-, rfl⟩ := h
  cases found with
  | none => exact rfl
  | some id =>
    refine ⟨trivial, fun left hleft => ?_⟩
    cases left with
    | none => exact if_neg fun h => Bool.false_ne_true h.2
    | some reply =>
      have hcloses : (reply.events.filter isClosed).length = if reply.ended then 1 else 0 :=
        hleft.2
      obtain ⟨g₁, hg₁, hR, hN⟩ : ∃ g₁,
          (closing R).next .none (.section id (.leave u intentional nowMs)) (some reply) = g₁ ∧
            (id = R → g₁ = ⟨if reply.ended then 1 else 0, 0, if reply.ended then 1 else 0,
              0, 0, 0, 0⟩) ∧
            (id ≠ R → g₁ = .none) := by
        refine ⟨_, rfl, fun hid => ?_, fun hid => if_neg fun h => hid h.1⟩
        change (if id = R ∧ reply.ended = true then _ else _) = _
        by_cases hended : reply.ended = true
        · rw [if_pos ⟨hid, hended⟩, if_pos hended]
          rfl
        · rw [if_neg fun h => hended h.2, if_neg hended]
          rfl
      rw [hg₁]
      change Prog.Sat (closing R) _ (announceLeave id u reply.events >>= _) g₁
      refine Prog.Sat.bind (announce_closing (fun _ => rfl) fun hid => by rw [hR hid, hcloses])
        fun _ g₂ hg₂ => ?_
      change Prog.Sat (closing R) _ (if reply.ended then _ else _) g₂
      by_cases hid : id = R
      · rw [if_pos hid, hR hid] at hg₂
        subst hg₂
        by_cases hended : reply.ended = true
        · simp only [if_pos hended]
          refine (removeRoom_closing (fun _ => ⟨Nat.one_pos, Nat.one_pos⟩) le_rfl).bind
            fun _ g₃ h => ?_
          rw [if_pos hid] at h
          exact h
        · simp only [if_neg hended]
          exact ⟨trivial, fun _ _ => rfl⟩
      · rw [if_neg hid, hN hid] at hg₂
        subst hg₂
        split
        · refine (removeRoom_closing (fun h => absurd h hid) le_rfl).bind fun _ g₃ h => ?_
          rw [if_neg hid] at h
          exact h
        · exact ⟨trivial, fun _ _ => rfl⟩

lemma connectionLostInRoom_closing (u : Uuid) (nowMs : ℤ) (id : Uuid) :
    (connectionLostInRoom u nowMs id).Sat (closing R) (fun _ g' => g' = .none) .none := by
  refine closing_next trivial fun s => ?_
  split
  · refine Prog.Sat.bind (leaveRoom_closing u _ _ _) fun left g' h => ?_
    cases left <;> exact h
  · refine ⟨trivial, fun updated _ => ?_⟩
    cases updated with
    | error e => exact rfl
    | ok _ => exact ⟨trivial, fun _ _ => if_neg fun h => Bool.false_ne_true h.2⟩

lemma onConnectionLost_closing (u : Uuid) (nowMs : ℤ) :
    (onConnectionLost u nowMs).Sat (closing R) (fun _ g' => g' = .none) .none := by
  refine closing_next trivial fun ids => ?_
  refine Prog.Sat.bind
    ((roomsWithMember_only (fun _ => mild_of_benign) u ids).keepsDues .none) fun mine g' h => ?_
  rw [h.2]
  split
  · exact rfl
  · refine Prog.Sat.bind
      (Prog.sat_collect (I := fun _ g' => g' = Dues.none) (fun id _ _ g' hg' => ?_) rfl)
        fun _ _ h => h
    rw [hg']
    exact connectionLostInRoom_closing u nowMs id

/-- The events of `R` among those of a sweep. -/
def duesOf (R : Uuid) (out : List (Uuid × RoomEvent)) : ℕ := (out.filter fun r => r.1 = R).length

/-- The events of a sweep's replies. -/
def eventsOf (replies : List (Uuid × Option RoomEvent)) : List (Uuid × RoomEvent) :=
  replies.filterMap fun r => r.2.map fun (e : RoomEvent) => (r.1, e)

lemma sweep_closing (nowMs : ℤ) (ids : List Uuid) :
    (sweep (.grace nowMs) ids).Sat (closing R) (fun replies g' =>
      (∀ r ∈ eventsOf replies, isClosed r.2 = true) ∧
      g' = ⟨duesOf R (eventsOf replies), duesOf R (eventsOf replies),
        duesOf R (eventsOf replies), 0, 0, 0, 0⟩) .none := by
  refine Prog.sat_collect (I := fun (replies : List (Uuid × Option RoomEvent)) (g' : Dues) =>
    (∀ r ∈ eventsOf replies, isClosed r.2 = true) ∧ g' =
      ⟨duesOf R (eventsOf replies), duesOf R (eventsOf replies), duesOf R (eventsOf replies),
        0, 0, 0, 0⟩)
    (fun id _ replies g' hg' => ?_) ⟨fun r hr => absurd hr List.not_mem_nil, rfl⟩
  obtain ⟨hclosed, rfl⟩ := hg'
  refine ⟨trivial, fun r hr => ?_⟩
  have hc : closes (.grace nowMs) r := hr.2
  cases r with
  | none =>
    have hout : eventsOf (replies ++ [(id, none)]) = eventsOf replies := by
      rw [eventsOf, List.filterMap_append]
      exact List.append_nil _
    refine ⟨fun r' (hr' : r' ∈ eventsOf (replies ++ [(id, none)])) => ?_, ?_⟩
    · exact hclosed r' (hout ▸ hr')
    · change _ = Dues.mk (duesOf R (eventsOf (replies ++ [(id, none)])))
        (duesOf R (eventsOf (replies ++ [(id, none)])))
        (duesOf R (eventsOf (replies ++ [(id, none)]))) 0 0 0 0
      rw [hout]
      exact if_neg fun h => Bool.false_ne_true h.2
  | some e =>
    have hout : eventsOf (replies ++ [(id, some e)]) = eventsOf replies ++ [(id, e)] := by
      rw [eventsOf, List.filterMap_append]
      rfl
    have he : Section.ends (.grace nowMs) (some e) = true := by
      cases e <;> first | rfl | cases hc
    refine ⟨fun r' (hr' : r' ∈ eventsOf (replies ++ [(id, some e)])) => ?_, ?_⟩
    · rw [hout] at hr'
      rcases List.mem_append.1 hr' with hr' | hr'
      · exact hclosed r' hr'
      · rw [List.mem_singleton.1 hr']
        exact hc
    · change (if id = R ∧ Section.ends (.grace nowMs) (some e) = true then _ else _) =
        Dues.mk (duesOf R (eventsOf (replies ++ [(id, some e)])))
          (duesOf R (eventsOf (replies ++ [(id, some e)])))
          (duesOf R (eventsOf (replies ++ [(id, some e)]))) 0 0 0 0
      rw [hout]
      by_cases hid : id = R <;> simp [he, hid, duesOf, Dues.ended, closesRow]

lemma tickGrace_closing (nowMs : ℤ) :
    (tickGrace nowMs).Sat (closing R) (fun _ g' => g' = .none) .none := by
  refine closing_next trivial fun ids => ?_
  change Prog.Sat (closing R) _ (sweep (.grace nowMs) ids >>= _) _
  refine Prog.Sat.bind (sweep_closing nowMs ids) fun replies g' h => ?_
  obtain ⟨hall, hg'⟩ := h
  change Prog.Sat (closing R) _ (Prog.forEach (fun r : Uuid × RoomEvent =>
    publish r.1 (eventToBroadcastItem r.2 r.1 none)) (eventsOf replies) >>= fun _ =>
      Prog.forEach (closeRoom nowMs)
        (((eventsOf replies).filter fun r => isClosed r.2).map (·.1)) >>= fun _ => _) g'
  generalize eventsOf replies = out at hall hg'
  have hpublished : (Prog.forEach (fun r : Uuid × RoomEvent =>
      publish r.1 (eventToBroadcastItem r.2 r.1 none)) out).Sat (closing R)
        (fun _ g'' => g'' = ⟨0, duesOf R out, duesOf R out, 0, 0, 0, 0⟩) g' := by
    refine (Prog.sat_forEach (I := fun (l : List (Uuid × RoomEvent)) (g : Dues) =>
      (∀ r ∈ l, isClosed r.2 = true) ∧ g = ⟨duesOf R l, duesOf R out, duesOf R out, 0, 0, 0, 0⟩)
      (fun r l' g hg => ?_) ⟨hall, hg'⟩).mono fun _ g'' h => ?_
    · obtain ⟨hl, rfl⟩ := hg
      have hr : r.2.payload.isClosed = true := by
        rw [isClosed_payload]
        exact hl r List.mem_cons_self
      refine ⟨fun hid _ => ?_, fun _ _ => ⟨fun r' hr' => hl r' (List.mem_cons_of_mem _ hr'), ?_⟩⟩
      · simp [duesOf, hid]
      · change (if r.1 = R ∧ _ then _ else _) = _
        by_cases hid : r.1 = R <;> simp [hid, hr, duesOf]
    · exact h.2
  refine hpublished.bind fun _ g'' hg'' => ?_
  have hremoved : (out.filter fun r => isClosed r.2) = out :=
    List.filter_eq_self.2 fun r hr => hall r hr
  rw [hremoved]
  refine Prog.Sat.bind (Prog.sat_forEach (I := fun (l : List Uuid) (g : Dues) =>
    g = ⟨0, l.count R, l.count R, 0, 0, 0, 0⟩) (fun id l' g hg => ?_) ?_) fun _ _ h => h
  · subst hg
    by_cases hid : id = R
    · subst hid
      refine ⟨fun _ => by simp, fun _ _ => ?_⟩
      change Prog.Sat (closing id) _ (removeRoom id) (if id = id then _ else _)
      rw [if_pos rfl]
      refine (removeRoom_closing (fun _ => by simp) le_rfl).mono fun _ g' h => ?_
      rw [h, if_pos rfl]
      simp
    · refine ⟨fun h => absurd h hid, fun _ _ => ?_⟩
      change Prog.Sat (closing R) _ (removeRoom id) (if id = R then _ else _)
      rw [if_neg hid]
      refine (removeRoom_closing (fun h => absurd h hid) le_rfl).mono fun _ g' h => ?_
      rw [h, if_neg hid, List.count_cons_of_ne (by simpa using hid)]
  · rw [hg'', duesOf, List.count_eq_countP, List.countP_map, List.countP_eq_length_filter]
    simp only [Function.comp_def]
    rfl

end Proc

/-- **Every program does what is due when it ends a room.** -/
theorem program_closing (env : Env) (R : Uuid) (op : Op) :
    (op.program env).Sat (closing R) (fun _ g => g = .none) .none := by
  cases op with
  | create title u pubkey migration nowMs =>
    exact (Proc.create_closing title u pubkey migration nowMs).bind fun _ _ h => h
  | join code u pubkey name nowMs =>
    exact (Proc.join_mild code u pubkey name nowMs).duesNone.bind fun _ _ h => h
  | leaveRoom u roomId intentional nowMs =>
    exact (Proc.leaveRoom_closing u roomId intentional nowMs).bind fun _ _ h => h
  | onConnectionLost u nowMs => exact (Proc.onConnectionLost_closing u nowMs).bind fun _ _ h => h
  | rejoin u pubkey nowMs => exact (Proc.rejoin_mild u pubkey nowMs).duesNone.bind fun _ _ h => h
  | touch u nowMs => exact (Proc.touch_mild u nowMs).duesNone.bind fun _ _ h => h
  | tickGrace nowMs => exact (Proc.tickGrace_closing nowMs).bind fun _ _ h => h
  | tickPresenceTimeout nowMs =>
    exact (Proc.tickPresenceTimeout_mild nowMs).duesNone.bind fun _ _ h => h
  | tickStaleParticipants nowMs =>
    exact (Proc.tickStaleParticipants_mild env.cfg nowMs).duesNone.bind fun _ _ h => h
  | dispatch envelope u pubkey =>
    refine Prog.Sat.bind (Proc.dispatchAuthed_idle (I := fun g => g = Dues.none) rfl
      (fun _ _ h => h.1) (fun e he => closing_dispatched he _)
      (fun title migration nowMs => Proc.create_closing title u pubkey migration nowMs)
      (fun code name nowMs => (Proc.join_mild code u pubkey name nowMs).duesNone)
      (fun roomId nowMs => Proc.leaveRoom_closing u roomId true nowMs)
      (fun nowMs => (Proc.touch_mild u nowMs).duesNone)) fun _ _ h => h

end Locast.Server
