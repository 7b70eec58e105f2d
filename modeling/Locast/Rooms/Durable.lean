import Locast.Rooms.SectionSpec

/-!
# What sections do to the database

Which statements a section may ask for, and the rule by which a property of the database that these
statements keep is kept by the section, whatever the store answers.
-/

namespace Locast.Rooms

open Locast.Lib Locast.Protocol

/-- The statements on `room_manifests`. -/
def StoreRequest.isManifest : StoreRequest → Bool
  | .insertRoomManifest .. | .pruneRoomManifests .. => true
  | _ => false

/-- The statements a section on the room `roomId` may ask for. -/
def Section.asks (roomId : Uuid) : Section → StoreRequest → Prop
  | .join .., .addRoomParticipant id .. => id = roomId
  | .leave .., .addRoomParticipant id .. | .leave .., .updateParticipantStatus id ..
  | .leave .., .endRoom id _ | .leave .., .setHostDisconnectDeadline id _ => id = roomId
  | .permissionSet .., .updateParticipantCapSet id .. => id = roomId
  | .manifestPublish .., .insertRoomManifest id _ | .manifestPublish .., .pruneRoomManifests id _ =>
    id = roomId
  | _, _ => False

/-! ### Statements -/

variable {P : Db → Prop} {store : Store} {request : StoreRequest}

/-- **What a call does**: nothing, with an error, or its statement. -/
lemma Store.exec_spec (store : Store) (request : StoreRequest) :
    ((∃ e, (store.exec request).1 = .error e) ∧ (store.exec request).2.db = store.db) ∨
      (store.exec request).1 = .ok () ∧
        store.db.exec request = .ok (store.exec request).2.db := by
  unfold Store.exec
  split
  · exact .inl ⟨⟨_, rfl⟩, rfl⟩
  · cases hdb : store.db.exec request with
    | error e => exact .inl ⟨⟨e, rfl⟩, rfl⟩
    | ok db' => exact .inr ⟨rfl, rfl⟩

/-- What a call has done, by its answer. -/
lemma Store.exec_cases {request : StoreRequest} {answer : Except String Unit} {store' : Store}
    (h : store.exec request = (answer, store')) :
    ((∃ e, answer = .error e) ∧ store'.db = store.db) ∨
      answer = .ok () ∧ store.db.exec request = .ok store'.db := by
  have := store.exec_spec request
  rwa [h] at this

/-- A call keeps what its statement keeps. -/
lemma Store.exec_keeps (hP : ∀ db', store.db.exec request = .ok db' → P db') (h : P store.db) :
    P (store.exec request).2.db := by
  rcases store.exec_spec request with ⟨-, hdb⟩ | ⟨-, hdb⟩
  · rw [hdb]
    exact h
  · exact hP _ hdb

lemma Store.execAll_keeps {requests : List StoreRequest}
    (hP : ∀ request ∈ requests, ∀ db db', P db → db.exec request = .ok db' → P db')
    (h : P store.db) : P (store.execAll requests).db := by
  induction requests generalizing store with
  | nil => exact h
  | cons request requests ih =>
    refine ih (fun r hr => hP r (List.mem_cons_of_mem _ hr)) ?_
    exact Store.exec_keeps (fun db' hdb => hP request List.mem_cons_self _ db' h hdb) h

@[simp] lemma Store.query_db {α : Type} (store : Store) (read : Db → α) :
    (store.query read).2.db = store.db := by
  unfold Store.query
  split <;> rfl

/-! ### Sections -/

variable {env : SectionEnv} {s : RoomState} {sec : Section}

lemma LeaveCase.asks {cfg : RoomRegistryConfig} {leaver : ParticipantRecord} {nowMs : ℤ}
    {u : Uuid} {intentional : Bool} {out : LeaveOutcome}
    (h : LeaveCase cfg s leaver nowMs intentional out) :
    ∀ request ∈ out.requests, Section.asks s.id (.leave u intentional nowMs) request := by
  cases h with
  | view =>
    intro request hr
    rw [List.mem_singleton.1 hr]
    rfl
  | close =>
    intro request hr
    rw [List.mem_singleton.1 hr]
    rfl
  | migrate v m _ _ he =>
    obtain ⟨-, -, -, -, rfl⟩ := electNewHost_spec he
    intro request hr
    rcases List.mem_append.1 hr with hr | hr
    · obtain ⟨p, -, rfl⟩ := List.mem_map.1 hr
      rfl
    · rcases List.mem_pair.1 hr with rfl | rfl <;> rfl
  | wait =>
    intro request hr
    rw [List.mem_singleton.1 hr]
    rfl

/-- **The rule for databases.**  A section keeps what the statements it may ask for keep. -/
theorem Section.run_db {out : SectionOutcome sec.Reply} (h : sec.run env store s = some out)
    (hP : ∀ request db db', sec.asks s.id request → P db → db.exec request = .ok db' → P db')
    (h₀ : P store.db) : P out.store.db := by
  -- one call that the section may make
  have hcall {r : StoreRequest} (ha : sec.asks s.id r) {st : Store} (h : P st.db) :
      P (st.exec r).2.db :=
    Store.exec_keeps (fun db' hdb => hP r _ db' ha h hdb) h
  cases sec with
  | join u pubkey displayName nowMs =>
    obtain ⟨⟨reply, s', store'⟩, hj, rfl⟩ := Option.map_eq_some_iff.1 h
    change P store'.db
    unfold joinLocked at hj
    split at hj
    · cases hj
      exact h₀
    · have hc := hcall (r := .addRoomParticipant s.id u pubkey displayName false nowMs Cap.chat)
        rfl h₀
      split at hj
      · rename_i he
        cases hj
        rwa [he] at hc
      · rename_i he
        dsimp only at hj
        split at hj
        · cases hj
        · cases hj
          rwa [he] at hc
  | leave u intentional nowMs =>
    simp only [Section.run] at h
    split at h
    · cases h
      exact h₀
    · rename_i out' hl
      cases h
      obtain ⟨-, leaver, -, -, hcase⟩ := leaveLocked_spec hl
      exact Store.execAll_keeps (fun r hr db db' hdb he => hP r db db' (hcase.asks r hr) hdb he) h₀
  | permissionSet caller payload =>
    cases h
    change P (permissionSetLocked s store caller payload).2.2.db
    unfold permissionSetLocked
    split
    · exact h₀
    split
    · exact h₀
    · rename_i target _
      have hc := hcall (r := .updateParticipantCapSet s.id payload.targetUserId
        (PermissionSetPayload.newCapSet payload target.capSet)) rfl h₀
      dsimp only
      split
      · rename_i he
        rwa [he] at hc
      · rename_i he
        rwa [he] at hc
  | manifestPublish u pubkey manifest =>
    have hpublished : P (manifestPublishLocked env.crates s store u pubkey manifest
        env.clockMs).2.db := by
      unfold manifestPublishLocked
      split
      · exact h₀
      split
      · exact h₀
      split
      · exact h₀
      have hq : P (store.query fun db => db.latestRoomManifest s.id).2.db := by
        rw [Store.query_db]
        exact h₀
      split
      · rename_i hquery
        rwa [hquery] at hq
      · rename_i latest store' hquery
        rw [hquery] at hq
        have hinsert (row : RoomManifestRow) :
            P (store'.exec (.insertRoomManifest s.id row)).2.db :=
          hcall (r := .insertRoomManifest s.id row) rfl hq
        dsimp only
        split
        · rename_i he
          exact (congrArg (fun out => P out.2.db) he).mp (hinsert _)
        · rename_i he
          refine hcall (r := .pruneRoomManifests s.id manifestVersionsKept) rfl ?_
          exact (congrArg (fun out => P out.2.db) he).mp (hinsert _)
    simp only [Section.run] at h
    split at h <;> cases h <;> exact hpublished
  | strokeBegin | strokePoint | strokeEnd | strokeUndo =>
    obtain ⟨_, -, rfl⟩ := Option.map_eq_some_iff.1 h
    exact h₀
  | _ =>
    cases h
    exact h₀

/-- A refused join stores nothing. -/
lemma joinLocked_error {cfg : RoomRegistryConfig} {s' : RoomState} {store' : Store} {u : Uuid}
    {pubkey : PubKey} {displayName : String} {nowMs : ℤ} {e : RoomError}
    (h : joinLocked cfg s store u pubkey displayName nowMs = some (.error e, s', store')) :
    s' = s ∧ store'.db = store.db := by
  unfold joinLocked at h
  split at h
  · cases h
    exact ⟨rfl, rfl⟩
  split at h
  · rename_i hexec
    cases h
    rcases Store.exec_cases hexec with ⟨-, hdb⟩ | ⟨hok, -⟩
    · exact ⟨rfl, hdb⟩
    · cases hok
  · dsimp only at h
    split at h <;> cases h

/-- A refused `PERMISSION_SET` stores nothing. -/
lemma permissionSetLocked_error {caller : Uuid} {payload : PermissionSetPayload} {e : RoomError}
    (h : (permissionSetLocked s store caller payload).1 = .error e) :
    (permissionSetLocked s store caller payload).2.1 = s ∧
      (permissionSetLocked s store caller payload).2.2.db = store.db := by
  unfold permissionSetLocked at h ⊢
  split
  · exact ⟨rfl, rfl⟩
  rename_i hhost
  rw [if_neg hhost] at h
  split
  · exact ⟨rfl, rfl⟩
  · rename_i target htarget
    simp only [htarget] at h ⊢
    split
    · rename_i hexec
      rcases Store.exec_cases hexec with ⟨-, hdb⟩ | ⟨hok, -⟩
      · exact ⟨rfl, hdb⟩
      · cases hok
    · rename_i hexec
      simp [hexec] at h

/-! ### Rooms apart -/

/-- The room whose rows a statement is about. -/
def StoreRequest.roomId : StoreRequest → Uuid
  | .insertRoom id .. | .addRoomParticipant id .. | .updateParticipantStatus id ..
  | .updateParticipantCapSet id .. | .endRoom id _ | .setHostDisconnectDeadline id _
  | .purgeStaleParticipants id _ | .insertRoomManifest id _ | .pruneRoomManifests id _ => id

/-- The rows of the room `R` are the same in both databases. -/
structure Db.SameRows (R : Uuid) (db db' : Db) : Prop where
  room : db'.rooms.get R = db.rooms.get R
  participants : ∀ u, db'.participants.get (R, u) = db.participants.get (R, u)
  manifests : db'.manifests.get R = db.manifests.get R

namespace Db.SameRows

variable {R : Uuid} {db db' db'' : Db}

lemma refl (R : Uuid) (db : Db) : SameRows R db db := ⟨rfl, fun _ => rfl, rfl⟩

lemma trans (h : SameRows R db db') (h' : SameRows R db' db'') : SameRows R db db'' :=
  ⟨h'.room.trans h.room, fun u => (h'.participants u).trans (h.participants u),
    h'.manifests.trans h.manifests⟩

lemma of_updateParticipant {roomId u : Uuid} (f : RoomParticipantRow → RoomParticipantRow)
    (hne : R ≠ roomId) : SameRows R db (db.updateParticipant roomId u f) := by
  unfold updateParticipant
  split
  · exact refl R db
  · exact ⟨rfl, fun v => by simp [AList.get_insert, hne], rfl⟩

lemma of_updateRoom {roomId : Uuid} (f : RoomRow → RoomRow) (hne : R ≠ roomId) :
    SameRows R db (db.updateRoom roomId f) := by
  unfold updateRoom
  split
  · exact refl R db
  · exact ⟨by simp [AList.get_insert, hne], fun _ => rfl, rfl⟩

end Db.SameRows

/-- **A statement leaves the rows of other rooms alone.** -/
lemma Db.exec_sameRows {R : Uuid} {db db' : Db} (h : db.exec request = .ok db')
    (hne : R ≠ request.roomId) : SameRows R db db' := by
  cases request with
  | insertRoom id =>
    replace hne : R ≠ id := hne
    simp only [exec] at h
    split at h
    · cases h
    split at h <;> cases h
    exact ⟨by simp [AList.get_insert, hne], fun _ => rfl, rfl⟩
  | addRoomParticipant id =>
    replace hne : R ≠ id := hne
    cases h
    exact ⟨rfl, fun u => by simp [AList.get_insert, hne], rfl⟩
  | updateParticipantStatus | updateParticipantCapSet =>
    cases h
    exact .of_updateParticipant _ hne
  | endRoom | setHostDisconnectDeadline =>
    cases h
    exact .of_updateRoom _ hne
  | purgeStaleParticipants id =>
    replace hne : R ≠ id := hne
    cases h
    refine ⟨rfl, fun u => ?_, rfl⟩
    have hkept : (R == id) = false := beq_false_of_ne hne
    cases hrow : db.participants.get (R, u) <;>
      simp [purgeStaleParticipants, AList.get_keep, isPurged, hkept, hrow]
  | insertRoomManifest id =>
    replace hne : R ≠ id := hne
    simp only [exec] at h
    split at h <;> cases h
    exact ⟨rfl, fun _ => rfl, by simp [AList.get_insert, hne]⟩
  | pruneRoomManifests id =>
    replace hne : R ≠ id := hne
    simp only [exec] at h
    split at h <;> cases h
    · exact .refl R db
    · exact ⟨rfl, fun _ => rfl, by simp [AList.get_insert, hne]⟩

/-- A section asks for statements about its own room. -/
lemma Section.asks_roomId {R : Uuid} (h : sec.asks R request) : request.roomId = R := by
  cases sec <;> cases request <;> first | exact h | exact h.elim

/-- **A section leaves the rows of other rooms alone.** -/
lemma Section.run_sameRows {out : SectionOutcome sec.Reply} (h : sec.run env store s = some out)
    {R : Uuid} (hne : R ≠ s.id) : Db.SameRows R store.db out.store.db :=
  Section.run_db h (fun request db db' ha hsame he => hsame.trans
    (Db.exec_sameRows he (by rw [Section.asks_roomId ha]; exact hne))) (.refl R store.db)

/-! ### Codes -/

/-- The code in the row of a room. -/
def Db.codeOf (db : Db) (id : Uuid) : Option String := (db.rooms.get id).map (·.code)

/-- The statement that adds a row to `rooms`. -/
def StoreRequest.isInsertRoom : StoreRequest → Bool
  | .insertRoom .. => true
  | _ => false

lemma Db.updateRoom_codeOf (db : Db) (roomId id : Uuid) {f : RoomRow → RoomRow}
    (hf : ∀ row, (f row).code = row.code) : (db.updateRoom roomId f).codeOf id = db.codeOf id := by
  unfold updateRoom
  split
  · rfl
  · rename_i row hrow
    simp only [codeOf, AList.get_insert]
    split
    · rename_i hid
      rw [hid, hrow]
      simp [hf]
    · rfl

/-- The code of a row never changes. -/
lemma Db.exec_codeOf {db db' : Db} {request : StoreRequest} (h : db.exec request = .ok db')
    (hr : request.isInsertRoom = false) (id : Uuid) : db'.codeOf id = db.codeOf id := by
  cases request with
  | insertRoom => cases hr
  | updateParticipantStatus roomId userId =>
    cases h
    unfold updateParticipant
    split <;> rfl
  | updateParticipantCapSet roomId userId =>
    cases h
    unfold updateParticipant
    split <;> rfl
  | endRoom roomId =>
    cases h
    exact Db.updateRoom_codeOf db roomId id fun _ => rfl
  | setHostDisconnectDeadline roomId =>
    cases h
    exact Db.updateRoom_codeOf db roomId id fun _ => rfl
  | insertRoomManifest =>
    simp only [exec] at h
    split at h <;> cases h
    rfl
  | pruneRoomManifests =>
    simp only [exec] at h
    split at h <;> cases h <;> rfl
  | _ =>
    cases h
    rfl

/-- A new row takes a code no row has. -/
lemma Db.exec_insertRoom {db db' : Db} {id : Uuid} {code title : String} {u : Uuid}
    {pubkey : PubKey} {migration : Bool} {createdMs : ℤ}
    (h : db.exec (.insertRoom id code title u pubkey migration createdMs) = .ok db') :
    (∀ id', db.codeOf id' ≠ some code) ∧ db.codeOf id = none ∧
      ∀ id', db'.codeOf id' = if id' = id then some code else db.codeOf id' := by
  simp only [exec] at h
  split at h
  · cases h
  rename_i hfree
  split at h
  · cases h
  rename_i htaken
  cases h
  refine ⟨fun id' hid' => htaken ?_, by simp [codeOf, AList.get_eq_none.2 hfree], fun id' => ?_⟩
  · obtain ⟨row, hrow, hcode⟩ := Option.map_eq_some_iff.1 hid'
    exact List.any_eq_true.2 ⟨row, AList.mem_vals.2 ⟨id', hrow⟩, by simpa using hcode⟩
  · simp only [codeOf, AList.get_insert]
    split <;> rfl

/-- Sections leave the codes of the rows alone. -/
lemma Section.run_codeOf {out : SectionOutcome sec.Reply} (h : sec.run env store s = some out)
    (id : Uuid) : out.store.db.codeOf id = store.db.codeOf id := by
  refine Section.run_db (P := fun db => db.codeOf id = store.db.codeOf id) h
    (fun request db db' ha hdb he => ?_) rfl
  rw [Db.exec_codeOf he ?_, hdb]
  cases request with
  | insertRoom => cases sec <;> exact ha.elim
  | _ => rfl

/-- **A room keeps its code.** -/
lemma Section.run_code {out : SectionOutcome sec.Reply} (h : sec.run env store s = some out) :
    out.state.code = s.code := by
  have hdraws {may : Prop} {roomId : Uuid} {out : RoomDispatchOutcome × RoomState}
      (hd : Draws may s roomId out) :
      (drawn env.crates.splitPublished s.id store out).state.code = s.code := by
    obtain ⟨drawing, hs⟩ := hd.state env.crates.splitPublished store
    rw [hs]
  have helect {t : RoomState} {v : Uuid} {m : RoomState} (he : electNewHost t = some (v, m)) :
      m.code = t.code := by
    obtain ⟨-, -, -, -, rfl⟩ := electNewHost_spec he
    rfl
  cases sec with
  | join u pubkey displayName nowMs =>
    obtain ⟨⟨reply, s', store'⟩, hj, rfl⟩ := Option.map_eq_some_iff.1 h
    rcases joinLocked_spec hj with ⟨e, rfl, rfl⟩ | ⟨joined, rfl, -, -, -, rfl, -⟩ <;> rfl
  | leave u intentional nowMs =>
    simp only [Section.run] at h
    split at h
    · cases h
      rfl
    · rename_i out' hl
      cases h
      obtain ⟨-, leaver, -, -, hcase⟩ := leaveLocked_spec hl
      cases hcase with
      | migrate v m _ _ he => exact (helect he).trans rfl
      | wait =>
        change (leaveWaiting env.cfg s leaver.userId nowMs).state.code = s.code
        simp only [leaveWaiting]
        split
        · cases he : electNewHost { s.mark leaver.userId .reconnecting nowMs with
              hostDisconnectDeadlineMs := some (nowMs + env.cfg.hostDisconnectGraceMs) } with
          | none => rfl
          | some e => exact (helect (v := e.1) (m := e.2) he).trans rfl
        · rfl
      | _ => rfl
  | connectionLost u nowMs =>
    cases h
    change (connectionLostLocked s u nowMs).code = s.code
    unfold connectionLostLocked
    split <;> rfl
  | presenceTimeout nowMs =>
    cases h
    change (presenceTimeoutLocked env.cfg s nowMs).2.code = s.code
    unfold presenceTimeoutLocked
    split <;> rfl
  | stale nowMs =>
    cases h
    change (staleLocked env.cfg s nowMs).2.code = s.code
    unfold staleLocked
    split
    · rfl
    · split <;> rfl
  | grace nowMs =>
    cases h
    rcases processRoomGrace_spec s nowMs with hg | ⟨deadline, -, -, hg⟩ <;>
      simp [hg, SectionOutcome.quiet]
  | permissionSet caller payload =>
    cases h
    rcases permissionSetLocked_spec s store caller payload with ⟨-, hp⟩ | ⟨capSet, -, -, hp⟩ <;>
      exact (congrArg RoomState.code hp).trans rfl
  | playbackCmd u pubkey payload =>
    cases h
    rcases playbackLocked_spec s payload u pubkey env.clockMs with ⟨e, hp⟩ | ⟨-, hp⟩ <;>
      exact congrArg (fun out => out.2.code) hp
  | strokeBegin envelope p u pubkey nowMs =>
    obtain ⟨out', ho, rfl⟩ := Option.map_eq_some_iff.1 h
    exact hdraws (strokeBeginLocked_draws ho)
  | strokePoint envelope p u =>
    obtain ⟨out', ho, rfl⟩ := Option.map_eq_some_iff.1 h
    exact hdraws (handleStrokePoint_draws ho)
  | strokeEnd envelope p u =>
    obtain ⟨out', ho, rfl⟩ := Option.map_eq_some_iff.1 h
    exact hdraws (handleStrokeEnd_draws ho)
  | strokeUndo envelope p u =>
    obtain ⟨out', ho, rfl⟩ := Option.map_eq_some_iff.1 h
    exact hdraws (handleStrokeUndo_draws ho)
  | strokeClear u =>
    cases h
    exact hdraws (handleStrokeClear_draws s u)
  | manifestPublish u pubkey manifest =>
    simp only [Section.run] at h
    split at h <;> cases h <;> rfl
  | _ =>
    cases h
    rfl

end Locast.Rooms
