import Locast.Server.Play
import Locast.Server.Publishing

/-!
# Commands are authorized under the lock

The gate looks at a room before the handler takes its lock, and the room may change in between.
What counts is the check each of the six commands repeats under the lock: whatever a command changes
or publishes, its caller had the right to in the very state it was applied to.  A publication goes
on after its section, under the same lock, and its caller stays the host meanwhile.
-/

namespace Locast.Server

open Locast.Lib Locast.Protocol Locast.Rooms

/-! ### What a command needs -/

/-- The six commands whose right is checked again under the lock. -/
def isGuarded : Body → Bool
  | .strokeBegin _ | .strokeUndo _ | .strokeClear | .playbackCmd _ | .permissionSet _
  | .manifestPublish _ => true
  | _ => false

/-- The record's capability set has the bit. -/
def Holds (p : ParticipantRecord) (bit : BitVec 32) : Prop := p.capSet &&& bit ≠ 0

/-- What a kind asks of its caller's record. -/
def needs (s : RoomState) (u : Uuid) (p : ParticipantRecord) : Body → Prop
  | .strokeBegin _ => p.isHost = true ∨ Holds p Cap.draw
  | .strokeUndo q => p.isHost = true ∨ Holds p Cap.undoAny ∨
      (Holds p Cap.undoOwn ∧
        ∃ payload, q = .ok payload ∧ s.drawing.ownerOf payload.strokeId = some u)
  | .strokeClear => p.isHost = true ∨ Holds p Cap.clearAll
  | .playbackCmd _ => p.isHost = true ∨ Holds p Cap.playbackControl
  | .permissionSet _ | .manifestPublish _ => p.isHost = true
  | _ => False

/-- `u` has a record in the room that is not `left` and holds what the kind asks for. -/
def Authorized (s : RoomState) (u : Uuid) (body : Body) : Prop :=
  ∃ p ∈ s.participants, p.userId = u ∧ p.status ≠ .left ∧ needs s u p body

section Locked

variable {s : RoomState} {u : Uuid}

lemma participantCan_iff {p : ParticipantRecord} {scope : Scope} {action : Action} :
    participantCan p scope action = true ↔
      p.isHost = true ∨ Holds p (scope.actionBit action) := by
  simp [participantCan, Holds]

lemma of_presentCan {scope : Scope} {action : Action} (h : s.presentCan u scope action = true) :
    ∃ p ∈ s.participants, p.userId = u ∧ p.status ≠ .left ∧
      participantCan p scope action = true := by
  unfold RoomState.presentCan at h
  split at h
  · rename_i p hp
    obtain ⟨hmem, hu, hl⟩ := RoomState.liveRecord_spec hp
    exact ⟨p, hmem, hu, hl, (Bool.and_eq_true_iff.1 h).2⟩
  · cases h

lemma of_mayUndo {q : Except String StrokeUndoPayload} (h : MayUndo s u q) :
    Authorized s u (.strokeUndo q) := by
  obtain ⟨payload, owner, rfl, ho, hm⟩ := h
  unfold mayUndo at hm
  split at hm
  · rename_i hown
    subst hown
    rcases Bool.or_eq_true_iff.1 hm with hm | hm
    · obtain ⟨p, hp, hu, hl, hc⟩ := of_presentCan hm
      refine ⟨p, hp, hu, hl, ?_⟩
      rcases participantCan_iff.1 hc with hc | hc
      · exact .inl hc
      · exact .inr (.inr ⟨hc, payload, rfl, ho⟩)
    · obtain ⟨p, hp, hu, hl, hc⟩ := of_presentCan hm
      refine ⟨p, hp, hu, hl, ?_⟩
      rcases participantCan_iff.1 hc with hc | hc
      · exact .inl hc
      · exact .inr (.inl hc)
  · obtain ⟨p, hp, hu, hl, hc⟩ := of_presentCan hm
    refine ⟨p, hp, hu, hl, ?_⟩
    rcases participantCan_iff.1 hc with hc | hc
    · exact .inl hc
    · exact .inr (.inl hc)

lemma status_ne_left_of_isPresent {st : ParticipantStatus} (h : st.isPresent = true) :
    st ≠ .left := by
  rintro rfl
  cases h

lemma of_isPresentHost (h : s.isPresentHost u = true) :
    ∃ p ∈ s.participants, p.userId = u ∧ p.status ≠ .left ∧ p.isHost = true := by
  obtain ⟨p, hp, hb⟩ := List.any_eq_true.1 h
  simp only [Bool.and_eq_true, beq_iff_eq] at hb
  exact ⟨p, hp, hb.1.1, status_ne_left_of_isPresent hb.2, hb.1.2⟩

lemma of_isPublishingHost {pubkey : PubKey} (h : s.isPublishingHost u pubkey = true) :
    ∃ p ∈ s.participants, p.userId = u ∧ p.status ≠ .left ∧ p.isHost = true := by
  obtain ⟨p, hp, hb⟩ := List.any_eq_true.1 h
  simp only [Bool.and_eq_true, beq_iff_eq] at hb
  exact ⟨p, hp, hb.1.1.1, status_ne_left_of_isPresent hb.2, hb.1.1.2⟩

/-- The section has left its room, the database and the lock as they were, and sent nothing. -/
structure Still {ρ : Type} (s : RoomState) (store : Store) (out : SectionOutcome ρ) : Prop where
  state : out.state = s
  db : out.store.db = store.db
  sent : out.sent = []
  held : out.held = false

/-- A drawing section with an effect was allowed to have one. -/
lemma Draws.may {may : Prop} {roomId : Uuid} {out : RoomDispatchOutcome × RoomState}
    (h : Draws may s roomId out) (split : SplitForWire) (store : Store)
    (hacts : ¬Still s store (drawn split s.id store out)) : may := by
  by_contra hno
  obtain ⟨hs, hsent⟩ := h.refused split store (.inl hno)
  exact hacts ⟨hs, rfl, hsent, rfl⟩

/-- **A command's section is authorized**: if it changes or sends anything, its caller had the right
to. -/
theorem command_section_authorized {env : SectionEnv} {store : Store} {envelope : Envelope}
    {pubkey : PubKey} {sec : Section} {out : SectionOutcome sec.Reply}
    (hguard : isGuarded envelope.body = true) (hsec : Proc.commandSection envelope u pubkey sec)
    (h : sec.run env store s = some out) (hacts : ¬Still s store out) :
    Authorized s u envelope.body := by
  cases sec with
  | permissionSet caller payload =>
    obtain ⟨rfl, hbody⟩ := hsec
    cases h
    rcases permissionSetLocked_spec s store caller payload with ⟨⟨e, hr⟩, -⟩ | ⟨c, -, hh, -⟩
    · obtain ⟨hs, hdb⟩ := permissionSetLocked_error hr
      exact absurd ⟨hs, hdb, by simp [hr], rfl⟩ hacts
    · rw [hbody]
      exact of_isPresentHost hh
  | playbackCmd u' pubkey' payload =>
    obtain ⟨rfl, -, hbody⟩ := hsec
    cases h
    rcases playbackLocked_spec s payload u' pubkey' env.clockMs with ⟨e, hr⟩ | ⟨hn, -⟩
    · exact absurd ⟨by simp [hr], rfl, by simp [hr], rfl⟩ hacts
    · obtain ⟨-, ⟨caller, hc, -, hcan⟩, -⟩ := playbackRefusal_eq_none hn
      obtain ⟨hmem, hu, hl⟩ := RoomState.liveRecord_spec hc
      rw [hbody]
      exact ⟨caller, hmem, hu, hl, participantCan_iff.1 hcan⟩
  | strokeBegin e p u' pubkey' nowMs =>
    obtain ⟨rfl, rfl, -, hbody⟩ := hsec
    obtain ⟨out', ho, rfl⟩ := Option.map_eq_some_iff.1 h
    obtain ⟨q, hmem, hu, hl, hcan⟩ :=
      of_presentCan (Draws.may (strokeBeginLocked_draws ho) _ _ hacts)
    rw [hbody]
    exact ⟨q, hmem, hu, hl, participantCan_iff.1 hcan⟩
  | strokeUndo e p u' =>
    obtain ⟨rfl, rfl, hbody⟩ := hsec
    obtain ⟨out', ho, rfl⟩ := Option.map_eq_some_iff.1 h
    rw [hbody]
    exact of_mayUndo (Draws.may (handleStrokeUndo_draws ho) _ _ hacts)
  | strokeClear u' =>
    obtain ⟨rfl, hbody⟩ := hsec
    cases h
    obtain ⟨q, hmem, hu, hl, hcan⟩ :=
      of_presentCan (Draws.may (handleStrokeClear_draws s u') _ _ hacts)
    rw [hbody]
    exact ⟨q, hmem, hu, hl, participantCan_iff.1 hcan⟩
  | manifestPublish u' pubkey' m =>
    obtain ⟨rfl, -, hbody⟩ := hsec
    rcases manifestPublishLocked_cases env.crates s store u' pubkey' m env.clockMs with
      ⟨e, store', hp, hdb⟩ | ⟨row, store', hp, -⟩
    · simp only [Section.run, hp] at h
      cases h
      exact absurd ⟨rfl, hdb, rfl, rfl⟩ hacts
    · rw [hbody]
      exact of_isPublishingHost (manifestPublishLocked_spec (by rw [hp])).2.1
  | strokePoint e p u' => simp [hsec.2.2, isGuarded] at hguard
  | strokeEnd e p u' => simp [hsec.2.2, isGuarded] at hguard
  | _ => exact hsec.elim

end Locked

/-! ### Refused commands -/

/-- The section's reply is a refusal. -/
def refuses : (sec : Section) → sec.Reply → Bool
  | .permissionSet .., .error _ | .playbackCmd .., .error _ | .manifestPublish .., .error _ => true
  | .strokeBegin .., r | .strokePoint .., r | .strokeEnd .., r | .strokeUndo .., r
  | .strokeClear .., r => !(r : RoomDispatchOutcome).toCaller.isEmpty
  | _, _ => false

lemma Draws.of_toCaller {s : RoomState} {may : Prop} {roomId : Uuid}
    {out : RoomDispatchOutcome × RoomState} (h : Draws may s roomId out) (split : SplitForWire)
    (store : Store) (hr : (!(drawn split s.id store out).reply.toCaller.isEmpty) = true) :
    Still s store (drawn split s.id store out) := by
  have hanswer : out.1.toCaller ≠ [] := fun hnil => by
    have : (drawn split s.id store out).reply.toCaller = out.1.toCaller := rfl
    simp [this, hnil] at hr
  obtain ⟨hs, hsent⟩ := h.refused split store (.inr hanswer)
  exact ⟨hs, rfl, hsent, rfl⟩

/-- **A refusal under the lock changes nothing and sends nothing.** -/
theorem section_refused {env : SectionEnv} {store : Store} {s : RoomState} {sec : Section}
    {out : SectionOutcome sec.Reply} (h : sec.run env store s = some out)
    (hr : refuses sec out.reply = true) : Still s store out := by
  cases sec with
  | permissionSet caller payload =>
    cases h
    rcases permissionSetLocked_spec s store caller payload with ⟨⟨e, he⟩, -⟩ | ⟨c, hc, -, -⟩
    · obtain ⟨hs, hdb⟩ := permissionSetLocked_error he
      exact ⟨hs, hdb, by simp [he], rfl⟩
    · simp [hc, refuses] at hr
  | playbackCmd u pubkey payload =>
    cases h
    rcases playbackLocked_spec s payload u pubkey env.clockMs with ⟨e, he⟩ | ⟨-, hc⟩
    · exact ⟨by simp [he], rfl, by simp [he], rfl⟩
    · simp [hc, refuses] at hr
  | strokeBegin e p u pubkey nowMs =>
    obtain ⟨out', ho, rfl⟩ := Option.map_eq_some_iff.1 h
    exact Draws.of_toCaller (strokeBeginLocked_draws ho) _ _ hr
  | strokePoint e p u =>
    obtain ⟨out', ho, rfl⟩ := Option.map_eq_some_iff.1 h
    exact Draws.of_toCaller (handleStrokePoint_draws ho) _ _ hr
  | strokeEnd e p u =>
    obtain ⟨out', ho, rfl⟩ := Option.map_eq_some_iff.1 h
    exact Draws.of_toCaller (handleStrokeEnd_draws ho) _ _ hr
  | strokeUndo e p u =>
    obtain ⟨out', ho, rfl⟩ := Option.map_eq_some_iff.1 h
    exact Draws.of_toCaller (handleStrokeUndo_draws ho) _ _ hr
  | strokeClear u =>
    cases h
    exact Draws.of_toCaller (handleStrokeClear_draws s u) _ _ hr
  | manifestPublish u pubkey m =>
    rcases manifestPublishLocked_cases env.crates s store u pubkey m env.clockMs with
      ⟨e, store', hp, hdb⟩ | ⟨row, store', hp, -⟩
    · simp only [Section.run, hp] at h
      cases h
      exact ⟨rfl, hdb, rfl, rfl⟩
    · simp only [Section.run, hp] at h
      cases h
      simp [refuses] at hr
  | _ => simp [refuses] at hr

/-- A still section leaves the server as it was. -/
lemma Still.sameServer {ρ : Type} {st : ServerState} {id : Uuid} {s : RoomState}
    {faults : List (Option String)} {out : SectionOutcome ρ} (h : Still s ⟨st.db, faults⟩ out)
    (hs : st.heap.get id = some s) : SameServer st (st.apply id out) :=
  .of_section hs h.state h.db h.sent h.held

/-- The step, answered so, changes nothing and reaches no channel. -/
def quiet : (e : Effect) → e.Resp → Bool
  | .section _ sec, r => refuses sec r
  | e, _ => e.benign

lemma quiet_of_benign {e : Effect} (he : e.benign = true) (r : e.Resp) : quiet e r = true := by
  cases e <;> first | exact he | cases he

/-- **A quiet step leaves the server as it was.** -/
lemma handle_quiet {env : Env} {inp : Input} {st st' : ServerState} {e : Effect} {r : e.Resp}
    (hq : quiet e r = true) (h : e.handle env inp st = some (r, st')) : SameServer st st' := by
  cases e with
  | «section» id sec =>
    obtain ⟨s, out, hs, hout, rfl, rfl⟩ := handle_section h
    exact (section_refused hout hq).sameServer hs
  | _ => first
    | exact .of_benign rfl h
    | cases hq

/-- Watches for a step that is not quiet. -/
def actWatch : Automaton Effect Effect.Resp Bool where
  allows _ _ := True
  expects := Effect.Answers
  next acted e r := acted || !quiet e r

lemma actWatch_benign {e : Effect} (he : e.benign = true) (acted : Bool) :
    actWatch.allows acted e ∧ ∀ r, actWatch.expects e r → actWatch.next acted e r = acted :=
  ⟨trivial, fun r _ => by simp [actWatch, quiet_of_benign he]⟩

lemma quiet_of_after {done : List ((e : Effect) × e.Resp)} {acted : Bool}
    (h : actWatch.after acted done = false) : acted = false ∧ ∀ x ∈ done, quiet x.1 x.2 = true := by
  induction done generalizing acted with
  | nil => exact ⟨h, fun x hx => absurd hx List.not_mem_nil⟩
  | cons d done ih =>
    obtain ⟨hacted, hrest⟩ := ih h
    simp only [actWatch, Bool.or_eq_false_iff, Bool.not_eq_false'] at hacted
    refine ⟨hacted.1, fun x hx => ?_⟩
    rcases List.mem_cons.1 hx with rfl | hx
    · exact hacted.2
    · exact hrest x hx

/-- An outcome with an answer for the caller comes from a task that did nothing. -/
def Unacted (out : RoomDispatchOutcome) (acted : Bool) : Prop :=
  out.events = [] ∧ (out.toCaller ≠ [] → acted = false)

lemma unacted_of_events {out : RoomDispatchOutcome} (h : out.events = []) : Unacted out false :=
  ⟨h, fun _ => rfl⟩

section Refusals

open Proc

variable {envelope : Envelope} {u : Uuid} {pubkey : PubKey}

lemma inNamedRoom_unacted (kind : String) {act : Uuid → Proc RoomDispatchOutcome}
    (hact : ∀ id, (act id).Sat actWatch Unacted false) :
    (inNamedRoom kind envelope u act).Sat actWatch Unacted false := by
  unfold inNamedRoom
  split
  · exact unacted_of_events rfl
  · rename_i id _
    have hmember : Only (fun e => e.benign = true) (fun _ => True) (isUserInRoom u id) :=
      isUserInRoom_only (fun _ h => h) u id
    refine Prog.Sat.bind (hmember.sat (fun _ _ h => h) fun e he => actWatch_benign he _)
      fun member acted hacted => ?_
    obtain ⟨-, rfl⟩ := hacted
    split
    · exact unacted_of_events rfl
    · refine ⟨trivial, fun registered _ => ?_⟩
      change Prog.Sat actWatch Unacted (if !registered then _ else _) false
      split
      · exact unacted_of_events rfl
      · exact hact id

lemma acted_of_toCaller {out : RoomDispatchOutcome} (h : out.toCaller ≠ []) :
    (false || !!out.toCaller.isEmpty) = false := by
  simpa using h

lemma handlePlaybackCmd_unacted (p : Except String PlaybackCommandPayload) :
    (handlePlaybackCmd envelope p u pubkey).Sat actWatch Unacted false := by
  unfold handlePlaybackCmd
  split
  · exact unacted_of_events rfl
  · exact unacted_of_events rfl
  · refine ⟨trivial, fun registered _ => ?_⟩
    change Prog.Sat actWatch Unacted (if !registered then _ else _) false
    split
    · exact unacted_of_events rfl
    · refine ⟨trivial, fun accepted _ => ?_⟩
      cases accepted with
      | error e => exact unacted_of_events rfl
      | ok e => exact ⟨rfl, fun h => absurd rfl h⟩

lemma handlePermissionSet_unacted (p : Except String PermissionSetPayload) :
    (handlePermissionSet envelope p u).Sat actWatch Unacted false := by
  unfold handlePermissionSet
  split
  · exact unacted_of_events rfl
  · exact unacted_of_events rfl
  · split
    · exact unacted_of_events rfl
    refine ⟨trivial, fun registered _ => ?_⟩
    change Prog.Sat actWatch Unacted (if !registered then _ else _) false
    split
    · exact unacted_of_events rfl
    · refine ⟨trivial, fun done _ => ?_⟩
      cases done with
      | error e => exact unacted_of_events rfl
      | ok e => exact ⟨rfl, fun h => absurd rfl h⟩

lemma handleManifestPublish_unacted (crates : Crates) (p : Except String MediaManifest) :
    (handleManifestPublish crates envelope p u pubkey).Sat actWatch Unacted false := by
  unfold handleManifestPublish
  split
  · exact unacted_of_events rfl
  · exact unacted_of_events rfl
  · split
    · exact unacted_of_events rfl
    refine ⟨trivial, fun registered _ => ?_⟩
    change Prog.Sat actWatch Unacted (if !registered then _ else _) false
    split
    · exact unacted_of_events rfl
    · refine ⟨trivial, fun published _ => ?_⟩
      cases published with
      | error e => exact unacted_of_events rfl
      | ok c => exact ⟨trivial, fun _ _ => ⟨trivial, fun _ _ => ⟨rfl, fun h => absurd rfl h⟩⟩⟩

/-- **A guarded command that answers its caller has done nothing.** -/
theorem dispatchAuthed_unacted (env : Env) (hguard : isGuarded envelope.body = true) :
    (dispatchAuthed env envelope u pubkey).Sat actWatch Unacted false := by
  refine dispatchAuthed_sat (fun _ _ h => h) (fun e he => actWatch_benign he _)
    (fun out h => unacted_of_events h) (fun nowMs => ?_) ?_
  · unfold handleBody
    cases hbody : envelope.body with
    | strokeBegin p =>
      refine ⟨trivial, fun nowMs _ => inNamedRoom_unacted _ fun id => ?_⟩
      exact ⟨trivial, fun r hr => ⟨hr, acted_of_toCaller⟩⟩
    | strokeUndo p =>
      exact inNamedRoom_unacted _ fun id => ⟨trivial, fun r hr => ⟨hr, acted_of_toCaller⟩⟩
    | strokeClear =>
      exact inNamedRoom_unacted _ fun id => ⟨trivial, fun r hr => ⟨hr, acted_of_toCaller⟩⟩
    | playbackCmd p => exact handlePlaybackCmd_unacted p
    | permissionSet p => exact handlePermissionSet_unacted p
    | manifestPublish p => exact handleManifestPublish_unacted _ p
    | _ => simp [hbody, isGuarded] at hguard
  · intro out acted id hout _
    rw [publishOutcome_of_nil _ id hout.1]
    exact hout

end Refusals

/-! ### Runs -/

/-- The step changed something of the server or sent something. -/
def Step.Acts (d : Step) : Prop := ¬SameServer d.before d.after

/-- **A step of a guarded command is authorized**, if it acts: its section checks the caller, and a
publication that goes on finds the caller still the host. -/
lemma dispatched_authorized {env : Env} {envelope : Envelope} {u : Uuid}
    {pubkey : PubKey} {d : Step} (hguard : isGuarded envelope.body = true)
    (h : Proc.Dispatched envelope u pubkey d.effect)
    (hd : (system env).Handled d) (hlawful : ∀ R, d.Lawful env.crates R) (hacts : d.Acts) :
    ∃ id s, envelope.roomId = some id ∧ d.before.heap.get id = some s ∧
      Authorized s u envelope.body := by
  obtain ⟨op, e, inp, resp, before, after⟩ := d
  have hhandled : Effect.handle env e inp before = some (resp, after) := hd
  have hpublishes {id : Uuid} {m : MediaManifest} {c : CachedManifest}
      (hid : envelope.roomId = some id) (hbody : envelope.body = .manifestPublish (.ok m))
      (hhost : c.hostUserId = u) (h : before.Publishes id c) :
      ∃ id s, envelope.roomId = some id ∧ before.heap.get id = some s ∧
        Authorized s u envelope.body := by
    obtain ⟨⟨s, hs, -, key, hp⟩, -⟩ := h
    rw [hhost] at hp
    exact ⟨id, s, hid, hs, by rw [hbody]; exact of_isPublishingHost hp⟩
  cases h with
  | benign hb => exact absurd (.of_benign hb hhandled) hacts
  | @«section» id sec hid hsec =>
    obtain ⟨s, out, hs, hout, -, rfl⟩ := handle_section hhandled
    exact ⟨id, s, hid, hs,
      command_section_authorized hguard hsec hout fun h => hacts (h.sameServer hs)⟩
  | relay _ hkind =>
    cases hb : envelope.body <;> simp_all [isGuarded, Proc.isRelayed]
  | @putManifest id m c hid hbody hhost =>
    exact hpublishes hid hbody hhost ((hlawful id).delivers c (if_pos rfl)).1
  | @publishManifest id m c hid hbody hhost =>
    exact hpublishes hid hbody hhost ((hlawful id).delivers c (if_pos rfl)).1

/-- **Commands are authorized under the lock.**  In any interleaving, from any state of the server,
a step of a guarded command that changes a room, a table or one of the registry's maps, or sends
anything, finds its caller authorized in the room its envelope names, in the state it is applied to;
and a command that answers its caller, which is how a refusal ends, has neither changed nor sent
anything. -/
theorem command_authorized (env : Env) (st₀ : ServerState) {h : List Step} {p : Tasks}
    (r : RunFrom env anyStep st₀ h p) (envelope : Envelope) (u : Uuid) (pubkey : PubKey)
    (hguard : isGuarded envelope.body = true) :
    (∀ d ∈ h, d.op = .dispatch envelope u pubkey → Step.Acts d →
      ∃ id s, envelope.roomId = some id ∧ d.before.heap.get id = some s ∧
        Authorized s u envelope.body) ∧
    (∀ t ∈ p.tasks, t.op = .dispatch envelope u pubkey → ∀ out, t.result = some (some out) →
      out.toCaller ≠ [] → ∀ x ∈ t.done, ∀ inp st st',
        Effect.handle env x.1 inp st = some (x.2, st') → SameServer st st') := by
  refine ⟨fun d hd hop hacts => ?_, fun t ht hop out hres hto x hx inp st st' hx' => ?_⟩
  · have hfoot : Proc.Dispatched envelope u pubkey d.effect := by
      refine RunFrom.footprint r (c := (· = .dispatch envelope u pubkey)) ?_ d hd hop
      rintro _ rfl
      refine Only.bind (Proc.dispatchAuthed_only env ?_) fun _ _ => trivial
      cases hb : envelope.body <;> simp_all [isGuarded, Proc.isRoomBound]
    exact dispatched_authorized hguard hfoot (RunFrom.handled r d hd)
      (fun R => lawful_of_runFrom R r d hd) hacts
  · have hsat (op : Op) : (op.program env).Sat actWatch
        (fun res acted => op = .dispatch envelope u pubkey →
          ∀ out, res = some out → Unacted out acted) false := by
      by_cases hop : op = .dispatch envelope u pubkey
      · subst hop
        refine (dispatchAuthed_unacted env hguard).bind fun out acted hq => ?_
        rintro - out' ⟨⟩
        exact hq
      · generalize op.program env = q
        generalize false = acted
        induction q generalizing acted with
        | ret a => exact fun h => absurd h hop
        | op e k ih => exact ⟨trivial, fun r _ => ih r _⟩
    have hend := System.sat_of_result (System.Run.tasks actWatch (fun _ => false) _ hsat
      (fun d hd => handled_answers hd) r t ht).2 hres
    have hafter := (hend hop out rfl).2 hto
    exact handle_quiet ((quiet_of_after hafter).2 x hx) hx'

/-! ### A revoke between the gate and the lock -/

namespace Revoked

/-- An envelope for room `10`. -/
def named (body : Body) : Envelope where
  roomId := some 10
  sender := none
  body := body
  serializedLen := 0

/-- The host grants `DRAW` to the viewer `2`, or takes it back. -/
def permission (add remove : BitVec 32) : Op :=
  .dispatch (named (.permissionSet (.ok ⟨2, add, remove⟩))) 1 (PubKey.filled 1)

/-- The viewer's first stroke. -/
def begin : Envelope :=
  named (.strokeBegin (.ok ⟨7, .pen, "#fff", 0x3F800000, 0x3F000000, 0x3F000000, 0, 0⟩))

/-- The viewer passes the gate, the host revokes, and the viewer's handler takes the lock. -/
def moves : List (Move Op Input) :=
  .spawn (.create "room" 1 (PubKey.filled 1) true 0) :: steps 0 10 (.plain [] 10 "ABCDEF") ++
  .spawn (.join "ABCDEF" 2 (PubKey.filled 2) "viewer" 0) :: steps 1 4 (.plain [10] 0 "") ++
  .spawn (permission Cap.draw 0) :: steps 2 7 (.plain [10] 0 "") ++
  .spawn (.dispatch begin 2 (PubKey.filled 2)) :: steps 3 6 (.plain [10] 0 "") ++
  .spawn (permission 0 Cap.draw) :: steps 4 7 (.plain [10] 0 "") ++
  steps 3 4 (.plain [10] 0 "")

lemma played_moves : (played Env.plain moves).isSome = true := by decide

end Revoked

/-- The viewer's stroke is refused under the lock: the channel carries the join and the two updates,
and no step of the stroke has changed anything. -/
theorem command_authorized_revoked : ∃ h p, Run Env.plain anyStep h p ∧
    (p.state.tx.get 10).map (List.map (·.payload)) = some
      [.participantJoined ⟨2, List.replicate 32 2, "viewer", 0, .connected, 0, false⟩,
        .capabilityUpdate ⟨2, Cap.chat ||| Cap.draw⟩, .capabilityUpdate ⟨2, Cap.chat⟩] ∧
    (∀ d ∈ h, d.op = .dispatch Revoked.begin 2 (PubKey.filled 2) → Step.Acts d →
      ∃ id s, some 10 = some id ∧ d.before.heap.get id = some s ∧
        Authorized s 2 Revoked.begin.body) ∧
    ∃ t out, p.tasks[3]? = some t ∧ t.result = some (some out) ∧ out.toCaller ≠ [] ∧
      ∀ x ∈ t.done, ∀ inp st st',
        Effect.handle Env.plain x.1 inp st = some (x.2, st') → SameServer st st' := by
  have r : Run Env.plain anyStep _ _ := run_of_played Revoked.played_moves fun _ _ => trivial
  obtain ⟨hacts, hrefused⟩ :=
    command_authorized _ _ r Revoked.begin 2 (PubKey.filled 2) rfl
  refine ⟨_, _, r, by decide, hacts, _, _, rfl, rfl, by decide, ?_⟩
  exact hrefused _ (List.mem_of_getElem? (i := 3) rfl) rfl _ rfl (by decide)

end Locast.Server
