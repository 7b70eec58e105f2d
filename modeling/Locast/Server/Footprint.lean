import Locast.Rooms.SectionSpec
import Locast.Server.Dispatch

/-!
# The footprint of each program

Which effects a program may perform, whatever it is answered, and what its result says then.  What
holds of the few effects in a program's footprint holds of all it does.
-/

namespace Locast.Server

open Locast.Lib Locast.Protocol Locast.Rooms

/-- Effects that change no room, no channel and no table. -/
def Effect.benign : Effect → Bool
  | clock | wallClock | newId | newCode | rooms | isRegistered _ | codeLookup _ | read _
  | currentManifest _ | codeTaken _ | relay _ => true
  | .section .. | store _ | publish .. | putManifest .. | publishManifest .. | insertRoom _
  | insertCode .. | insertChannel _ | remove .. => false

/-- What a task may rely on about the answer to an effect. -/
def Effect.Answers : (e : Effect) → e.Resp → Prop
  | .section _ sec, r => sec.Answers r
  | _, _ => True

/-- The program performs only effects in `ok`, and its result is in `Q`. -/
def Only (ok : Effect → Prop) {α : Type} (Q : α → Prop) (p : Proc α) : Prop :=
  p.Sat (.only Effect.Answers ok) (fun a _ => Q a) ()

section Rules

variable {ok ok' : Effect → Prop} {α β : Type} {P : α → Prop} {Q Q' : β → Prop}

lemma only_pure {b : β} : Only ok Q (pure b : Proc β) ↔ Q b := Iff.rfl

lemma Only.bind {p : Proc α} {f : α → Proc β} (hp : Only ok P p) (hf : ∀ a, P a → Only ok Q (f a)) :
    Only ok Q (p >>= f) := Prog.Sat.bind hp fun a _ => hf a

/-- One effect, then the rest. -/
lemma Only.step {e : Effect} {f : e.Resp → Proc β} (he : ok e)
    (hf : ∀ r, e.Answers r → Only ok Q (f r)) : Only ok Q ((.op e .ret : Proc e.Resp) >>= f) :=
  ⟨he, hf⟩

/-- One effect whose answer nothing is known of, then the rest. -/
lemma Only.next {e : Effect} {f : e.Resp → Proc β} (he : ok e) (hf : ∀ r, Only ok Q (f r)) :
    Only ok Q ((.op e .ret : Proc e.Resp) >>= f) := ⟨he, fun r _ => hf r⟩

lemma Only.mono {p : Proc β} (h : Only ok Q p) (hok : ∀ e, ok e → ok' e) (hq : ∀ b, Q b → Q' b) :
    Only ok' Q' p := by
  induction p with
  | ret b => exact hq b h
  | op e k ih => exact ⟨hok e h.1, fun r hr => ih r (h.2 r hr)⟩

lemma only_forEach {f : α → Proc Unit} (l : List α)
    (hf : ∀ a ∈ l, Only ok (fun _ => True) (f a)) :
    Only ok (fun _ => True) (Prog.forEach f l) := by
  induction l with
  | nil => exact trivial
  | cons a l ih =>
    refine .bind (hf a List.mem_cons_self) fun _ _ => ?_
    exact ih fun b hb => hf b (List.mem_cons_of_mem _ hb)

lemma only_collect {f : α → Proc β} (l : List α)
    (hf : ∀ a ∈ l, Only ok (fun _ => True) (f a)) :
    Only ok (fun _ => True) (Prog.collect f l) := by
  induction l with
  | nil => exact trivial
  | cons a l ih =>
    refine .bind (hf a List.mem_cons_self) fun y _ => ?_
    exact .bind (ih fun b hb => hf b (List.mem_cons_of_mem _ hb)) fun ys _ => trivial

/-- A program within a footprint is within the logic of an automaton that takes no notice of the
footprint. -/
lemma Only.sat {G : Type} {A : Automaton Effect Effect.Resp G} {g : G} {p : Proc β}
    (h : Only ok Q p) (hexpect : ∀ e r, A.expects e r → e.Answers r)
    (hok : ∀ e, ok e → A.allows g e ∧ ∀ r, A.expects e r → A.next g e r = g) :
    p.Sat A (fun b g' => Q b ∧ g' = g) g := by
  induction p with
  | ret b => exact ⟨h, rfl⟩
  | op e k ih =>
    refine ⟨(hok e h.1).1, fun r hr => ?_⟩
    rw [(hok e h.1).2 r hr]
    exact ih r (h.2 r (hexpect e r hr))

end Rules

namespace Proc

variable {ok : Effect → Prop}

/-! ### The registry -/

section Registry

variable (hb : ∀ e : Effect, e.benign → ok e)
include hb

lemma pickCode_only (n : ℕ) : Only ok (fun _ => True) (pickCode n) := by
  induction n with
  | zero => exact trivial
  | succ n ih =>
    refine .next (hb _ rfl) fun candidate => ?_
    refine .next (hb _ rfl) fun holder => ?_
    split
    · exact ih
    · refine .next (hb _ rfl) fun taken => ?_
      cases taken with
      | error e => exact trivial
      | ok b => cases b with
        | true => exact ih
        | false => exact trivial

lemma create_only (title : String) (u : Uuid) (pubkey : PubKey) (migration : Bool) (nowMs : ℤ)
    (hinsert : ∀ id code, ok (.store (.insertRoom id code title u pubkey migration nowMs)))
    (hadd : ∀ id, ok (.store (.addRoomParticipant id u pubkey "" true nowMs Cap.host)))
    (hroom : ∀ id code wallMs,
      ok (.insertRoom (.new id code title u pubkey migration nowMs Cap.host wallMs)))
    (hcode : ∀ code id, ok (.insertCode code id)) (hchannel : ∀ id, ok (.insertChannel id)) :
    Only ok (fun _ => True) (create title u pubkey migration nowMs) := by
  refine .bind (pickCode_only hb _) fun picked _ => ?_
  cases picked with
  | error e => exact trivial
  | ok code =>
    refine .next (hb _ rfl) fun id => ?_
    refine .next (hinsert _ _) fun inserted => ?_
    cases inserted with
    | error e => exact trivial
    | ok _ =>
      refine .next (hadd _) fun added => ?_
      cases added with
      | error e => exact trivial
      | ok _ =>
        refine .next (hb _ rfl) fun wallMs => ?_
        simp only
        split
        · exact trivial
        · exact .next (hroom _ _ _) fun _ =>
            .next (hcode _ _) fun _ => .next (hchannel _) fun _ => trivial

/-- The room a user leaves is the wanted one, if one is wanted. -/
lemma findRoomOf_only (u : Uuid) (wanted : Option Uuid) (ids : List Uuid) :
    Only ok (fun found => ∀ id, found = some id → ∀ w, wanted = some w → w = id)
      (findRoomOf u wanted ids) := by
  induction ids with
  | nil => exact only_pure.2 fun id h => by cases h
  | cons id ids ih =>
    rw [findRoomOf]
    split
    · exact ih
    · rename_i hw
      refine .next (hb _ rfl) fun s => ?_
      split
      · refine only_pure.2 fun id' h w hwanted => ?_
        cases h
        simpa [hwanted] using hw
      · exact ih

lemma roomsWithMember_only (u : Uuid) (ids : List Uuid) :
    Only ok (fun _ => True) (roomsWithMember u ids) := by
  induction ids with
  | nil => exact trivial
  | cons id ids ih =>
    refine .next (hb _ rfl) fun s => ?_
    exact .bind ih fun rest _ => trivial

lemma touchRooms_only (u : Uuid) (nowMs : ℤ) (ids : List Uuid)
    (hsec : ∀ id, ok (.section id (.touch u nowMs))) :
    Only ok (fun _ => True) (touchRooms u nowMs ids) := by
  induction ids with
  | nil => exact trivial
  | cons id ids ih =>
    refine .next (hb _ rfl) fun s => ?_
    split
    · exact ih
    · refine .next (hsec id) fun found => ?_
      split
      · exact trivial
      · exact ih

lemma touch_only (u : Uuid) (nowMs : ℤ) (hsec : ∀ id, ok (.section id (.touch u nowMs))) :
    Only ok (fun _ => True) (touch u nowMs) :=
  .next (hb _ rfl) fun ids => touchRooms_only hb u nowMs ids hsec

lemma removeRoom_only (id : Uuid) (hremove : ∀ map, ok (.remove map id)) :
    Only ok (fun _ => True) (removeRoom id) := by
  refine .next (hremove .byId) fun found => ?_
  split
  · exact .next (hb _ rfl) fun s =>
      .next (hremove .channel) fun _ => .next (hremove .manifestCache) fun _ => trivial
  · exact .next (hremove .manifestCache) fun _ => trivial

lemma leaveRoom_only (u : Uuid) (wanted : Option Uuid) (intentional : Bool) (nowMs : ℤ)
    (hsec : ∀ id, (∀ w, wanted = some w → w = id) →
      ok (.section id (.leave u intentional nowMs)))
    (hpub : ∀ id item, (∀ w, wanted = some w → w = id) → item.payload.isRoster = true →
      ok (.publish id item))
    (hremove : ∀ map id, (∀ w, wanted = some w → w = id) → ok (.remove map id)) :
    Only ok (fun _ => True) (leaveRoom u wanted intentional nowMs) := by
  refine .next (hb _ rfl) fun ids => ?_
  refine .bind (findRoomOf_only hb u wanted ids) fun found hfound => ?_
  cases found with
  | none => exact trivial
  | some id =>
    have hid := hfound id rfl
    refine .step (hsec id hid) fun left hleft => ?_
    cases left with
    | none => exact trivial
    | some reply =>
      refine .bind (P := fun _ => True) ?_ fun _ _ => ?_
      · exact only_forEach _ fun e he => ⟨hpub id _ hid (hleft e he), fun _ _ => trivial⟩
      · split
        · exact .bind (removeRoom_only hb id fun map => hremove map id hid) fun _ _ => trivial
        · exact .next (hb _ rfl) fun s => trivial

lemma connectionLostInRoom_only (u : Uuid) (nowMs : ℤ) (id : Uuid)
    (hleave : ok (.section id (.leave u false nowMs)))
    (hpub : ∀ item, item.payload.isRoster = true → ok (.publish id item))
    (hremove : ∀ map, ok (.remove map id))
    (hstore : ok (.store (.updateParticipantStatus id u .disconnected nowMs)))
    (hsec : ok (.section id (.connectionLost u nowMs))) :
    Only ok (fun _ => True) (connectionLostInRoom u nowMs id) := by
  refine .next (hb _ rfl) fun s => ?_
  split
  · refine .bind (leaveRoom_only hb u (some id) false nowMs ?_ ?_ ?_) fun left _ => ?_
    · intro id' h
      rw [← h id rfl]
      exact hleave
    · intro id' item h hp
      rw [← h id rfl]
      exact hpub item hp
    · intro map id' h
      rw [← h id rfl]
      exact hremove map
    · cases left <;> exact trivial
  · refine .next hstore fun updated => ?_
    cases updated with
    | error e => exact trivial
    | ok _ => exact .next hsec fun _ => trivial

end Registry

/-! ### The gate -/

section Gate

variable (hb : ∀ e : Effect, e.benign → ok e)
include hb

lemma isUserInRoom_only (u id : Uuid) : Only ok (fun _ => True) (isUserInRoom u id) := by
  refine .next (hb _ rfl) fun registered => ?_
  split
  · exact .next (hb _ rfl) fun s => trivial
  · exact trivial

lemma isRoomHost_only (id u : Uuid) : Only ok (fun _ => True) (isRoomHost id u) := by
  refine .next (hb _ rfl) fun registered => ?_
  split
  · exact .next (hb _ rfl) fun s => trivial
  · exact trivial

lemma can_only (u id : Uuid) (scope : Scope) (action : Action) :
    Only ok (fun _ => True) (can u id scope action) := by
  refine .next (hb _ rfl) fun registered => ?_
  split
  · exact .next (hb _ rfl) fun s => trivial
  · exact trivial

lemma hasLiveRecordIn_only (u : Uuid) (ids : List Uuid) :
    Only ok (fun _ => True) (hasLiveRecordIn u ids) := by
  induction ids with
  | nil => exact trivial
  | cons id ids ih =>
    refine .next (hb _ rfl) fun s => ?_
    split
    · exact trivial
    · exact ih

lemma checkInRoom_only (u id : Uuid) (command : Command) :
    Only ok (fun _ => True) (checkInRoom u id command) := by
  unfold checkInRoom
  split
  · exact .bind (isRoomHost_only hb _ _) fun _ _ => trivial
  · exact .bind (isRoomHost_only hb _ _) fun _ _ => trivial
  · refine .bind (can_only hb _ _ _ _) fun own _ => ?_
    split
    · exact trivial
    · exact .bind (can_only hb _ _ _ _) fun _ _ => trivial
  · exact .bind (can_only hb _ _ _ _) fun _ _ => trivial
  · split
    · exact .bind (can_only hb _ _ _ _) fun _ _ => trivial
    · exact trivial

lemma checkCapability_only (u : Uuid) (roomId : Option Uuid) (command : Command) :
    Only ok (fun _ => True) (checkCapability u roomId command) := by
  unfold checkCapability
  split
  · exact trivial
  · exact trivial
  · exact trivial
  · split
    · exact .bind (isUserInRoom_only hb _ _) fun _ _ => trivial
    · refine .next (hb _ rfl) fun ids => ?_
      exact .bind (hasLiveRecordIn_only hb _ _) fun _ _ => trivial
  · split
    · exact trivial
    · refine .bind (isUserInRoom_only hb _ _) fun member _ => ?_
      split
      · exact trivial
      · exact checkInRoom_only hb _ _ _

end Gate

/-! ### The handlers -/

/-- **The dispatcher's rule.**  For an automaton that takes no notice of benign effects, the handler
of the envelope's kind decides. -/
theorem dispatchAuthed_sat {G : Type} {A : Automaton Effect Effect.Resp G} {g : G}
    {Q : RoomDispatchOutcome → G → Prop} {env : Env} {envelope : Envelope} {u : Uuid}
    {pubkey : PubKey} (hexpect : ∀ e r, A.expects e r → e.Answers r)
    (hneutral : ∀ e : Effect, e.benign = true →
      A.allows g e ∧ ∀ r, A.expects e r → A.next g e r = g)
    (hrefused : ∀ out : RoomDispatchOutcome, out.events = [] → Q out g)
    (hbody : ∀ nowMs, (handleBody env envelope u pubkey nowMs).Sat A Q g)
    (hpublish : ∀ out g' id, Q out g' → envelope.roomId = some id →
      (publishOutcome env.crates.splitPublished id out.events).Sat A (fun _ => Q out) g') :
    (dispatchAuthed env envelope u pubkey).Sat A Q g := by
  have hclock := hneutral .clock rfl
  refine Prog.Sat.bind (Q := Q) ⟨hclock.1, fun nowMs hr => ?_⟩ fun out g' hq => ?_
  · rw [hclock.2 nowMs hr]
    simp only [Prog.bind]
    split
    · exact hbody nowMs
    · rename_i command _
      have hgate : Only (fun e => e.benign = true) (fun _ => True)
        (checkCapability u envelope.roomId command) := checkCapability_only (fun _ => id) _ _ _
      refine Prog.Sat.bind (hgate.sat hexpect hneutral) fun checked g' hg => ?_
      obtain ⟨-, rfl⟩ := hg
      cases checked with
      | error e =>
        refine hrefused _ ?_
        unfold refused
        split <;> rfl
      | ok _ => exact hbody nowMs
  · split
    · exact hq
    · rename_i id hid
      exact Prog.Sat.bind (hpublish out g' id hq hid) fun _ g'' hq' => hq'

/-- The write section of a command, with its caller. -/
def commandSection (envelope : Envelope) (u : Uuid) (pubkey : PubKey) : Section → Prop
  | .manifestPublish u' pubkey' m =>
    u' = u ∧ pubkey' = pubkey ∧ envelope.body = .manifestPublish (.ok m)
  | .playbackCmd u' pubkey' p => u' = u ∧ pubkey' = pubkey ∧ envelope.body = .playbackCmd (.ok p)
  | .permissionSet u' p => u' = u ∧ envelope.body = .permissionSet (.ok p)
  | .strokeBegin e p u' pubkey' _ =>
    e = envelope ∧ u' = u ∧ pubkey' = pubkey ∧ envelope.body = .strokeBegin p
  | .strokePoint e p u' => e = envelope ∧ u' = u ∧ envelope.body = .strokePoint p
  | .strokeEnd e p u' => e = envelope ∧ u' = u ∧ envelope.body = .strokeEnd p
  | .strokeUndo e p u' => e = envelope ∧ u' = u ∧ envelope.body = .strokeUndo p
  | .strokeClear u' => u' = u ∧ envelope.body = .strokeClear
  | _ => False

/-- The kinds whose events the connection's task publishes. -/
def isRelayed : Body → Bool
  | .positionReport _ | .laserMove _ | .laserOff | .chatMessage _ => true
  | _ => false

/-- A kind that changes or reaches no room but the one it names. -/
def isRoomBound : Body → Bool
  | .roomCreate _ | .roomJoinRequest _ | .roomLeave | .presence => false
  | _ => true

/-- The effects of a command's task: reads, its write section in the named room, and items there,
with the cached manifest. -/
inductive Dispatched (envelope : Envelope) (u : Uuid) (pubkey : PubKey) : Effect → Prop
  | benign {e : Effect} (h : e.benign = true) : Dispatched envelope u pubkey e
  | section {id : Uuid} {sec : Section} (hid : envelope.roomId = some id)
      (hsec : commandSection envelope u pubkey sec) : Dispatched envelope u pubkey (.section id sec)
  | relay {id : Uuid} {item : BroadcastItem} (hid : envelope.roomId = some id)
      (hkind : isRelayed envelope.body = true) (ha : item.payload.announcement = none)
      (hp : item.payload.playback = none) (hw : item.payload.isRelayed = true) :
      Dispatched envelope u pubkey (.publish id item)
  | putManifest {id : Uuid} {m : MediaManifest} {c : CachedManifest}
      (hid : envelope.roomId = some id) (hbody : envelope.body = .manifestPublish (.ok m))
      (hhost : c.hostUserId = u) :
      Dispatched envelope u pubkey (.putManifest id c)
  | publishManifest {id : Uuid} {m : MediaManifest} {c : CachedManifest}
      (hid : envelope.roomId = some id) (hbody : envelope.body = .manifestPublish (.ok m))
      (hhost : c.hostUserId = u) :
      Dispatched envelope u pubkey (.publishManifest id c)

/-- The events an outcome leaves to the connection's task: relays to the named room. -/
def Relays (envelope : Envelope) (out : RoomDispatchOutcome) : Prop :=
  ∀ e ∈ out.events, (∃ id, envelope.roomId = some id ∧ e.ownRoom = some id) ∧
    isRelayed envelope.body = true ∧ e.announcement = none ∧ e.payload.playback = none ∧
    e.payload.isRelayed = true

lemma relays_nil {envelope : Envelope} {out : RoomDispatchOutcome} (h : out.events = []) :
    Relays envelope out := by simp [Relays, h]

section Handlers

variable {envelope : Envelope} {u : Uuid} {pubkey : PubKey}

lemma dispatched_benign (e : Effect) (h : e.benign = true) : Dispatched envelope u pubkey e :=
  .benign h

/-- A program whose outcomes all leave nothing to publish. -/
lemma only_relays {ok : Effect → Prop} {p : Proc RoomDispatchOutcome}
    (h : Only ok (fun out => out.events = []) p) : Only ok (Relays envelope) p :=
  h.mono (fun _ => id) fun _ => relays_nil

lemma handleManifestPublish_only (crates : Crates) {p : Except String MediaManifest}
    (hbody : envelope.body = .manifestPublish p) :
    Only (Dispatched envelope u pubkey) (fun out => out.events = [])
      (handleManifestPublish crates envelope p u pubkey) := by
  unfold handleManifestPublish
  split
  · exact rfl
  · exact rfl
  · rename_i manifest id hid
    split
    · exact rfl
    · refine .next (.benign rfl) fun registered => ?_
      split
      · exact rfl
      · refine ⟨.section hid ⟨rfl, rfl, hbody⟩, fun published hanswer => ?_⟩
        cases published with
        | error e => exact rfl
        | ok c =>
          have hhost : c.hostUserId = u := hanswer
          exact ⟨.putManifest hid hbody hhost, fun _ _ =>
            ⟨.publishManifest hid hbody hhost, fun _ _ => rfl⟩⟩

lemma handlePlaybackCmd_only {p : Except String PlaybackCommandPayload}
    (hbody : envelope.body = .playbackCmd p) :
    Only (Dispatched envelope u pubkey) (fun out => out.events = [])
      (handlePlaybackCmd envelope p u pubkey) := by
  unfold handlePlaybackCmd
  split
  · exact rfl
  · exact rfl
  · rename_i id payload hid
    refine .next (.benign rfl) fun registered => ?_
    split
    · exact rfl
    · refine .next (.section hid ⟨rfl, rfl, hbody⟩) fun accepted => ?_
      cases accepted <;> exact rfl

lemma handlePermissionSet_only {p : Except String PermissionSetPayload}
    (hbody : envelope.body = .permissionSet p) :
    Only (Dispatched envelope u pubkey) (fun out => out.events = [])
      (handlePermissionSet envelope p u) := by
  unfold handlePermissionSet
  split
  · exact rfl
  · exact rfl
  · rename_i id payload hid
    split
    · exact rfl
    · refine .next (.benign rfl) fun registered => ?_
      split
      · exact rfl
      · refine .next (.section hid ⟨rfl, hbody⟩) fun done => ?_
        cases done <;> exact rfl

lemma inNamedRoom_only (kind : String) {act : Uuid → Proc RoomDispatchOutcome}
    (hact : ∀ id, envelope.roomId = some id →
      Only (Dispatched envelope u pubkey) (fun out => out.events = []) (act id)) :
    Only (Dispatched envelope u pubkey) (fun out => out.events = [])
      (inNamedRoom kind envelope u act) := by
  unfold inNamedRoom
  split
  · exact rfl
  · rename_i id hid
    refine .bind (isUserInRoom_only dispatched_benign _ _) fun member _ => ?_
    split
    · exact rfl
    · refine .next (.benign rfl) fun registered => ?_
      split
      · exact rfl
      · exact hact id hid

lemma handleManifestFetch_only (crates : Crates) (p : Except String Uuid) :
    Only (Dispatched envelope u pubkey) (fun out => out.events = [])
      (handleManifestFetch crates envelope p u) := by
  unfold handleManifestFetch
  split
  · exact rfl
  · exact rfl
  · refine .bind (isUserInRoom_only dispatched_benign _ _) fun member _ => ?_
    split
    · exact rfl
    · refine .next (.benign rfl) fun cached => ?_
      cases cached <;> exact rfl

lemma handleSignal_only (crates : Crates) (p : Except String SignalPayload) :
    Only (Dispatched envelope u pubkey) (fun out => out.events = [])
      (handleSignal crates envelope p u pubkey) := by
  unfold handleSignal
  split
  · exact rfl
  split
  · exact rfl
  split
  · exact rfl
  · exact rfl
  · refine .bind (isUserInRoom_only dispatched_benign _ _) fun sender _ => ?_
    split
    · exact rfl
    refine .bind (isUserInRoom_only dispatched_benign _ _) fun recipient _ => ?_
    split
    · exact rfl
    split
    · exact rfl
    · refine .next (.benign rfl) fun delivered => ?_
      split <;> exact rfl

lemma handlePositionReport_only {p : Except String PositionReportPayload}
    (hbody : envelope.body = .positionReport p) :
    Only (Dispatched envelope u pubkey) (Relays envelope) (handlePositionReport envelope p u) := by
  unfold handlePositionReport
  split
  · exact relays_nil rfl
  · exact relays_nil rfl
  · rename_i payload id hid
    refine .bind (isUserInRoom_only dispatched_benign _ _) fun member _ => ?_
    split
    · exact relays_nil rfl
    · refine only_pure.2 fun e he => ?_
      rw [List.mem_singleton.1 he, hbody]
      exact ⟨⟨id, hid, rfl⟩, rfl, rfl, rfl, rfl⟩

lemma laserEvent_relays : Relays envelope (.ofEvents (laserEvent envelope u).toList) := by
  intro e he
  have he : laserEvent envelope u = some e := Option.mem_toList.1 he
  unfold laserEvent at he
  split at he
  · rename_i id payload hid hbody
    split at he
    · cases he
    · cases he
      exact ⟨⟨id, hid, rfl⟩, by rw [hbody]; rfl, rfl, rfl, rfl⟩
  · rename_i id hid hbody
    cases he
    exact ⟨⟨id, hid, rfl⟩, by rw [hbody]; rfl, rfl, rfl, rfl⟩
  · cases he

lemma handleChatMessage_only {p : Except String ChatPayload} (nowMs : ℤ)
    (hbody : envelope.body = .chatMessage p) :
    Only (Dispatched envelope u pubkey) (Relays envelope)
      (handleChatMessage envelope p u nowMs) := by
  unfold handleChatMessage
  split
  · exact relays_nil rfl
  · exact relays_nil rfl
  · rename_i id payload hid
    split
    · exact relays_nil rfl
    refine .bind (can_only dispatched_benign _ _ _ _) fun may _ => ?_
    split
    · exact relays_nil rfl
    refine .next (.benign rfl) fun registered => ?_
    split
    · exact relays_nil rfl
    refine .next (.benign rfl) fun s => ?_
    split
    · exact relays_nil rfl
    · refine only_pure.2 fun e he => ?_
      rw [List.mem_singleton.1 he, hbody]
      exact ⟨⟨id, hid, rfl⟩, rfl, rfl, rfl, rfl⟩

/-- The handler of a room-bound kind. -/
lemma handleBody_only (env : Env) (nowMs : ℤ) (hbound : isRoomBound envelope.body = true) :
    Only (Dispatched envelope u pubkey) (Relays envelope)
      (handleBody env envelope u pubkey nowMs) := by
  unfold handleBody
  cases hbody : envelope.body with
  | roomCreate p => simp [hbody, isRoomBound] at hbound
  | roomJoinRequest p => simp [hbody, isRoomBound] at hbound
  | roomLeave => simp [hbody, isRoomBound] at hbound
  | presence => simp [hbody, isRoomBound] at hbound
  | manifestPublish p => exact only_relays (handleManifestPublish_only _ hbody)
  | manifestRequest p => exact only_relays (handleManifestFetch_only _ _)
  | signal p => exact only_relays (handleSignal_only _ _)
  | playbackCmd p => exact only_relays (handlePlaybackCmd_only hbody)
  | positionReport p => exact handlePositionReport_only hbody
  | strokeBegin p =>
    refine only_relays (.next (.benign rfl) fun nowMs => ?_)
    refine inNamedRoom_only _ fun id hid => ?_
    exact ⟨.section hid ⟨rfl, rfl, rfl, hbody⟩, fun r hr => hr⟩
  | strokePoint p =>
    refine only_relays (inNamedRoom_only _ fun id hid => ?_)
    exact ⟨.section hid ⟨rfl, rfl, hbody⟩, fun r hr => hr⟩
  | strokeEnd p =>
    refine only_relays (inNamedRoom_only _ fun id hid => ?_)
    exact ⟨.section hid ⟨rfl, rfl, hbody⟩, fun r hr => hr⟩
  | strokeUndo p =>
    refine only_relays (inNamedRoom_only _ fun id hid => ?_)
    exact ⟨.section hid ⟨rfl, rfl, hbody⟩, fun r hr => hr⟩
  | strokeClear =>
    refine only_relays (inNamedRoom_only _ fun id hid => ?_)
    exact ⟨.section hid ⟨rfl, hbody⟩, fun r hr => hr⟩
  | permissionSet p => exact only_relays (handlePermissionSet_only hbody)
  | chatMessage p => exact handleChatMessage_only _ hbody
  | laserMove p => exact laserEvent_relays
  | laserOff => exact laserEvent_relays
  | other => exact relays_nil rfl

lemma publishOutcome_of_nil (split : SplitForWire) (id : Uuid) {events : List RoomEvent}
    (h : events = []) : publishOutcome split id events = .ret () := by
  rw [h]
  rfl

/-- The publishes of the connection's task. -/
lemma publishOutcome_only (split : SplitForWire) {out : RoomDispatchOutcome} (id : Uuid)
    (hout : Relays envelope out) :
    Only (Dispatched envelope u pubkey) (fun _ => True) (publishOutcome split id out.events) := by
  refine only_forEach _ fun i hi => ?_
  obtain ⟨e, he, hroom, hitem⟩ := mem_publishEvents hi
  obtain ⟨⟨id', hid', hown⟩, hkind, ha, hp, hw⟩ := hout e he
  obtain ⟨hia, hip⟩ := publishEvent_quiet ha hp _ hitem
  have hiw : i.2.payload.isRelayed = true := by
    rcases (publishEvent_spec split id 0 e).2 with ⟨item, h, hpay⟩ | ⟨⟨_, _, _, _, rfl⟩, -⟩
    · rw [h, List.mem_singleton] at hitem
      rw [hitem, hpay, hw]
    · cases hw
  rw [(publishEvent_spec _ _ _ _).1, hown, Option.getD_some] at hroom
  exact .next (.relay (hroom ▸ hid') hkind hia hip hiw) fun _ => trivial

/-- **A room-bound command stays in the room it names.** -/
theorem dispatchAuthed_only (env : Env) (hbound : isRoomBound envelope.body = true) :
    Only (Dispatched envelope u pubkey) (Relays envelope)
      (dispatchAuthed env envelope u pubkey) := by
  refine dispatchAuthed_sat (fun _ _ => id) (fun e he => ⟨.benign he, fun _ _ => rfl⟩)
    (fun out => relays_nil) (fun nowMs => handleBody_only env nowMs hbound) ?_
  intro out _ id hq _
  exact (publishOutcome_only _ id hq).mono (fun _ h => h) fun _ _ => hq

end Handlers

/-! ### The kinds that create, join and leave -/

section Rooms

variable {G : Type} {A : Automaton Effect Effect.Resp G} {g : G} {I : G → Prop} {u : Uuid}
  {pubkey : PubKey} {nowMs : ℤ}

lemma handleRoomCreate_sat (hg : I g) (p : Except String RoomCreatePayload)
    (h : ∀ title migration, (create title u pubkey migration nowMs).Sat A (fun _ => I) g) :
    (handleRoomCreate p u pubkey nowMs).Sat A (fun out g' => out.events = [] ∧ I g') g := by
  unfold handleRoomCreate
  split
  · exact ⟨rfl, hg⟩
  split
  · exact ⟨rfl, hg⟩
  · refine (h _ _).bind fun created g' hg' => ?_
    cases created <;> exact ⟨rfl, hg'⟩

lemma handleRoomJoinRequest_sat (hg : I g) (p : Except String RoomJoinRequestPayload)
    (h : ∀ code name, (join code u pubkey name nowMs).Sat A (fun _ => I) g) :
    (handleRoomJoinRequest p u pubkey nowMs).Sat A (fun out g' => out.events = [] ∧ I g') g := by
  unfold handleRoomJoinRequest
  split
  · exact ⟨rfl, hg⟩
  split
  · exact ⟨rfl, hg⟩
  split
  · exact ⟨rfl, hg⟩
  · refine (h _ _).bind fun joined g' hg' => ?_
    cases joined <;> exact ⟨rfl, hg'⟩

lemma handleRoomLeave_sat (roomId : Option Uuid)
    (h : (leaveRoom u roomId true nowMs).Sat A (fun _ => I) g) :
    (handleRoomLeave u roomId nowMs).Sat A (fun out g' => out.events = [] ∧ I g') g := by
  refine h.bind fun left g' hg' => ?_
  cases left <;> exact ⟨rfl, hg'⟩

lemma handlePresence_sat (h : (touch u nowMs).Sat A (fun _ => I) g) :
    (handlePresence u nowMs).Sat A (fun out g' => out.events = [] ∧ I g') g :=
  h.bind fun _ _ hg' => ⟨rfl, hg'⟩

/-- **The rule for dispatched envelopes.**  An automaton that takes no notice of a command's effects
is left with the four operations of the registry that an envelope can start. -/
theorem dispatchAuthed_idle {env : Env} {envelope : Envelope} (hg : I g)
    (hexpect : ∀ e r, A.expects e r → e.Answers r)
    (hcommand : ∀ e, Dispatched envelope u pubkey e →
      A.allows g e ∧ ∀ r, A.expects e r → A.next g e r = g)
    (hcreate : ∀ title migration nowMs,
      (create title u pubkey migration nowMs).Sat A (fun _ => I) g)
    (hjoin : ∀ code name nowMs, (join code u pubkey name nowMs).Sat A (fun _ => I) g)
    (hleave : ∀ roomId nowMs, (leaveRoom u roomId true nowMs).Sat A (fun _ => I) g)
    (htouch : ∀ nowMs, (touch u nowMs).Sat A (fun _ => I) g) :
    (dispatchAuthed env envelope u pubkey).Sat A (fun _ => I) g := by
  by_cases hbound : isRoomBound envelope.body = true
  · refine ((dispatchAuthed_only env hbound).sat hexpect hcommand).mono fun out g' h => ?_
    rw [h.2]
    exact hg
  refine (dispatchAuthed_sat (Q := fun out g' => out.events = [] ∧ I g') hexpect
    (fun e he => hcommand e (.benign he)) (fun _ h => ⟨h, hg⟩) (fun nowMs => ?_) ?_).mono
    fun _ _ h => h.2
  · unfold handleBody
    cases hbody : envelope.body with
    | roomCreate p => exact handleRoomCreate_sat hg p fun _ _ => hcreate _ _ _
    | roomJoinRequest p => exact handleRoomJoinRequest_sat hg p fun _ _ => hjoin _ _ _
    | roomLeave => exact handleRoomLeave_sat _ (hleave _ _)
    | presence => exact handlePresence_sat (htouch _)
    | _ => simp [hbody, isRoomBound] at hbound
  · intro out g' id hq _
    rw [publishOutcome_of_nil _ id hq.1]
    exact hq

end Rooms

end Proc

end Locast.Server
