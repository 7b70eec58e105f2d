import Locast.Lib.Solo
import Locast.Server.Authorization
import Locast.Server.Boot
import Locast.Server.Log

/-!
# Store failures

What an operation that persists before it commits to memory leaves behind when one of its store
calls fails, and what a leave does whatever the store answers.  Each operation runs alone, from any
state of the server.
-/

namespace Locast.Server

open Locast.Lib Locast.Protocol Locast.Rooms

variable {env : Env} {label : Op} {st st₀ st₁ st₂ : ServerState}

/-! ### Single steps -/

section Steps

variable {β : Type} {Q : List Step → β → ServerState → Prop} {id : Uuid}

lemma ends_rooms {f : List Uuid → Proc β} (hf : ∀ inp ids, ids.Perm st.byId →
    (system env).Ends label (fun h b st' => Q (⟨label, .rooms, inp, ids, st, st⟩ :: h) b st')
      (f ids) st) :
    (system env).Ends label Q (Proc.rooms >>= f) st := by
  refine System.ends_op.2 fun inp (ids : List Uuid) st' hd => ?_
  simp only [system, Effect.handle] at hd
  split at hd
  · rename_i hperm
    cases hd
    exact hf inp _ hperm
  · cases hd

lemma ends_read {f : RoomState → Proc β} (hf : ∀ inp s, st.heap.get id = some s →
    (system env).Ends label (fun h b st' => Q (⟨label, .read id, inp, s, st, st⟩ :: h) b st')
      (f s) st) :
    (system env).Ends label Q (Proc.read id >>= f) st := by
  refine System.ends_op.2 fun inp r st' hd => ?_
  have hread : Effect.handle env (.read id) inp st = some (r, st') := hd
  obtain ⟨hs, -, rfl⟩ := handle_read hread
  exact hf inp r hs

lemma ends_locked {sec : Section} {f : sec.Reply → Proc β}
    (hf : ∀ (inp : Input) s (out : SectionOutcome sec.Reply), st.heap.get id = some s →
      sec.run ⟨env.cfg, env.crates, inp.clockMs⟩ ⟨st.db, inp.faults⟩ s = some out →
      (system env).Ends label (fun h b st' =>
        Q (⟨label, .section id sec, inp, out.reply, st, st.apply id out⟩ :: h) b st')
        (f out.reply) (st.apply id out)) :
    (system env).Ends label Q (Proc.locked id sec >>= f) st := by
  refine System.ends_op.2 fun inp r st' hd => ?_
  obtain ⟨s, out, hs, hrun, rfl, rfl⟩ := handle_section (r := r) hd
  exact hf inp s out hs hrun

lemma ends_remove {map : RegistryMap} {f : Bool → Proc β} (hf : ∀ inp, (system env).Ends label
      (fun h b st' =>
        Q (⟨label, .remove map id, inp, st.holds id map, st, st.remove map id⟩ :: h) b st')
      (f (st.holds id map)) (st.remove map id)) :
    (system env).Ends label Q (Proc.removeFrom map id >>= f) st := by
  refine System.ends_op.2 fun inp r st' hd => ?_
  cases hd
  exact hf inp

end Steps

/-! ### Calls that fail -/

/-- The environment lets the step's store call fail. -/
def Input.refuses (inp : Input) : Bool := inp.faults.head?.join.isSome

/-- `add_room_participant` is called outside the locks and fails. -/
def Step.refusesSeat (d : Step) : Bool :=
  match d.effect with
  | .store (.addRoomParticipant ..) => d.inp.refuses
  | _ => false

/-- A statement that no constraint can refuse is refused only by the environment. -/
lemma exec_of_total {db db' : Db} (inp : Input) {request : StoreRequest}
    (htotal : db.exec request = .ok db') :
    (inp.refuses = true ∧ ∃ e, (Store.exec ⟨db, inp.faults⟩ request).1 = .error e ∧
        (Store.exec ⟨db, inp.faults⟩ request).2.db = db) ∨
      inp.refuses = false ∧ (Store.exec ⟨db, inp.faults⟩ request).1 = .ok () ∧
        (Store.exec ⟨db, inp.faults⟩ request).2.db = db' := by
  unfold Store.exec Input.refuses
  rcases hf : inp.faults with _ | ⟨_ | e, rest⟩
  · exact .inr ⟨rfl, by simp [htotal], by simp [htotal]⟩
  · exact .inr ⟨rfl, by simp [htotal], by simp [htotal]⟩
  · exact .inl ⟨rfl, e, rfl, rfl⟩

/-- However the program runs alone from `st`, what it did, by whether a seat was refused, its result
and the state at its end are in `P`. -/
def EndsIn (env : Env) (label : Op) {β : Type} (P : Bool → β → ServerState → Prop) (p : Proc β)
    (st : ServerState) : Prop :=
  (system env).Ends label (fun h b st' => P (h.any Step.refusesSeat) b st') p st

section Rules

variable {β γ : Type} {P : Bool → β → ServerState → Prop} {b : β}

lemma endsIn_pure : EndsIn env label P (pure b) st ↔ P false b st := System.ends_ret

/-- What is made of the result at the end. -/
lemma EndsIn.map {p : Proc γ} {g : γ → β} (h : EndsIn env label (fun f c => P f (g c)) p st) :
    EndsIn env label P (p >>= fun c => pure (g c)) st :=
  System.Ends.bind h fun h' c st' hP => System.ends_ret.2 (by simpa using hP)

/-- A step other than `add_room_participant`. -/
lemma endsIn_step {e : Effect} {f : e.Resp → Proc β}
    (htest : ∀ request, e = .store request → ∀ id u k n i j c,
      request ≠ .addRoomParticipant id u k n i j c)
    (hf : ∀ inp r st', Effect.handle env e inp st = some (r, st') → EndsIn env label P (f r) st') :
    EndsIn env label P ((.op e .ret : Proc e.Resp) >>= f) st := by
  refine System.ends_op.2 fun inp r st' hd => ?_
  refine System.Ends.mono (hf inp r st' hd) fun h b st'' hP => ?_
  have hno : Step.refusesSeat ⟨label, e, inp, r, st, st'⟩ = false := by
    cases e with
    | store request =>
      cases request with
      | addRoomParticipant id u k n i j c => exact absurd rfl (htest _ rfl id u k n i j c)
      | _ => rfl
    | _ => rfl
  simpa [hno] using hP

lemma endsIn_benign {e : Effect} {f : e.Resp → Proc β} (he : e.benign = true)
    (hf : ∀ r st', SameServer st st' → EndsIn env label P (f r) st') :
    EndsIn env label P ((.op e .ret : Proc e.Resp) >>= f) st := by
  refine endsIn_step (fun request h => ?_) fun inp r st' hd => hf r st' (.of_benign he hd)
  rw [h] at he
  cases he

lemma endsIn_read {id : Uuid} {f : RoomState → Proc β}
    (hf : ∀ s, st.heap.get id = some s → EndsIn env label P (f s) st) :
    EndsIn env label P (Proc.read id >>= f) st :=
  ends_read fun _ s hs => System.Ends.mono (hf s hs) fun _ _ _ hP => by
    simpa [Step.refusesSeat] using hP

lemma endsIn_locked {id : Uuid} {sec : Section} {f : sec.Reply → Proc β}
    (hf : ∀ (inp : Input) s (out : SectionOutcome sec.Reply), st.heap.get id = some s →
      sec.run ⟨env.cfg, env.crates, inp.clockMs⟩ ⟨st.db, inp.faults⟩ s = some out →
      EndsIn env label P (f out.reply) (st.apply id out)) :
    EndsIn env label P (Proc.locked id sec >>= f) st :=
  ends_locked fun inp s out hs hrun => System.Ends.mono (hf inp s out hs hrun) fun _ _ _ hP => by
    simpa [Step.refusesSeat] using hP

/-- A store call other than `add_room_participant`. -/
lemma endsIn_store {request : StoreRequest} {f : Except String Unit → Proc β}
    (hne : ∀ id u k n i j c, request ≠ .addRoomParticipant id u k n i j c)
    (hf : ∀ inp : Input, EndsIn env label P (f (Store.exec ⟨st.db, inp.faults⟩ request).1)
      { st with db := (Store.exec ⟨st.db, inp.faults⟩ request).2.db }) :
    EndsIn env label P (Proc.store request >>= f) st := by
  refine endsIn_step (fun r h => ?_) fun inp r st' hd => ?_
  · cases h
    exact hne
  · cases hd
    exact hf inp

/-- `add_room_participant`. -/
lemma endsIn_seat {id u : Uuid} {pubkey : PubKey} {name : String} {isHost : Bool} {joinedMs : ℤ}
    {capSet : BitVec 32} {f : Except String Unit → Proc β}
    (hrefused : ∀ e, EndsIn env label (fun _ => P true) (f (.error e)) st)
    (hserved : ∀ db, EndsIn env label P (f (.ok ())) { st with db }) :
    EndsIn env label P
      (Proc.store (.addRoomParticipant id u pubkey name isHost joinedMs capSet) >>= f) st := by
  refine System.ends_op.2 fun inp r st' hd => ?_
  cases hd
  have htotal := Db.exec.eq_def st.db (.addRoomParticipant id u pubkey name isHost joinedMs capSet)
  rcases exec_of_total inp htotal with ⟨hinp, e, he, hdb⟩ | ⟨hinp, hok, hdb⟩
  · rw [he, hdb]
    refine System.Ends.mono (hrefused e) fun h b st' hP => ?_
    simpa [Step.refusesSeat, hinp] using hP
  · rw [hok]
    refine System.Ends.mono (hserved _) fun h b st' hP => ?_
    simpa [Step.refusesSeat, hinp] using hP

/-- A program of benign steps, then the rest. -/
lemma endsIn_bind_benign {Q : γ → Prop} {p : Proc γ} {f : γ → Proc β}
    (hp : Only (fun e => e.benign = true) Q p)
    (hf : ∀ c st', Q c → SameServer st st' → EndsIn env label P (f c) st') :
    EndsIn env label P (p >>= f) st := by
  refine System.Ends.bind (System.ends_only (I := SameServer st) hp (fun d hd => handled_answers hd)
    (fun d hd he hI => hI.trans (.of_benign he hd)) (.refl st)) fun h c st' hq => ?_
  refine System.Ends.mono (hf c st' hq.1 hq.2.1) fun h' b st'' hP => ?_
  have hno : h.any Step.refusesSeat = false := by
    rw [List.any_eq_false]
    intro d hd
    have hbenign := hq.2.2 d hd
    obtain ⟨op, e, inp, r, before, after⟩ := d
    cases e <;> first | cases hbenign; done | simp [Step.refusesSeat]
  simpa [hno] using hP

end Rules

/-! ### Operations that persist first -/

/-- The operations that write to the store before they change a room: two of them in one room of the
user's. -/
inductive PersistFirst where
  | create (title : String) (hostUserId : Uuid) (hostPubkey : PubKey) (hostMigrationEnabled : Bool)
      (nowMs : ℤ)
  | join (code : String) (userId : Uuid) (pubkey : PubKey) (displayName : String) (nowMs : ℤ)
  | connectionLost (userId : Uuid) (nowMs : ℤ) (roomId : Uuid)
  | rejoin (userId : Uuid) (pubkey : PubKey) (nowMs : ℤ) (roomId : Uuid)
  | permissionSet (envelope : Envelope) (p : Except String PermissionSetPayload) (userId : Uuid)

/-- The result is `Err`. -/
def failed {α : Type} : Except RoomError α → Bool
  | .error _ => true
  | .ok _ => false

namespace PersistFirst

/-- The program, and whether it fails. -/
def program : PersistFirst → Proc Bool
  | create title u pubkey migration nowMs => do
    let result ← Proc.create title u pubkey migration nowMs
    pure (failed result)
  | join code u pubkey name nowMs => do
    let result ← Proc.join code u pubkey name nowMs
    pure (failed result)
  | connectionLost u nowMs id => do
    let result ← Proc.connectionLostInRoom u nowMs id
    pure (failed result)
  | rejoin u pubkey nowMs id => do
    let result ← Proc.rejoinInRoom u pubkey nowMs id
    pure (failed result)
  | permissionSet envelope p u => do
    let outcome ← Proc.handlePermissionSet envelope p u
    pure (!outcome.toCaller.isEmpty)

/-- A lost connection is one of a user who is not the host. -/
def Applies (st : ServerState) : PersistFirst → Prop
  | connectionLost u _ id => ∀ s, st.heap.get id = some s → Proc.isHostUser s u = false
  | _ => True

/-- `add_room_participant`, the second store call, fails: after the row of a new room has been
inserted, or after the grace deadline of the room's row has been cleared. -/
def Halfway (st : ServerState) (seatRefused : Bool) : PersistFirst → Prop
  | create .. => seatRefused = true
  | rejoin _ _ _ id => seatRefused = true ∧
      (st.db.rooms.get id).any (·.hostDisconnectDeadlineMs.isSome) = true
  | _ => False

/-- When it fails, nothing has changed, unless it failed halfway. -/
def Met (op : PersistFirst) (st : ServerState) (seatRefused failed : Bool) (st' : ServerState) :
    Prop := (failed = true → SameServer st st') ↔ ¬op.Halfway st seatRefused

end PersistFirst

section Operations

variable {seatRefused : Bool} {op : PersistFirst}

lemma met_of_ok (h : ¬op.Halfway st seatRefused) : op.Met st seatRefused false st₁ :=
  ⟨fun _ => h, fun _ hf => by cases hf⟩

lemma met_of_same (h : ¬op.Halfway st seatRefused) (hsame : SameServer st st₁) (failed : Bool) :
    op.Met st seatRefused failed st₁ := ⟨fun _ => h, fun _ _ => hsame⟩

namespace PersistFirst

/-- A new room shows its host its own record. -/
lemma selfView_new (id : Uuid) (code title : String) (u : Uuid) (pubkey : PubKey) (migration : Bool)
    (nowMs : ℤ) (wallMs : ℕ) :
    ((RoomState.new id code title u pubkey migration nowMs Cap.host wallMs).selfView u).isSome := by
  simp [RoomState.selfView, RoomState.new]

/-- **A failed `create`** leaves the room's row behind when the seat is refused. -/
lemma create_met (title : String) (u : Uuid) (pubkey : PubKey) (migration : Bool) (nowMs : ℤ) :
    EndsIn env label ((create title u pubkey migration nowMs).Met st)
      (create title u pubkey migration nowMs).program st := by
  have hno : ¬(create title u pubkey migration nowMs).Halfway st false := by simp [Halfway]
  have hpick : Only (fun e => e.benign = true) (fun _ => True)
    (Proc.pickCode (Proc.maxCollisions + 1)) := Proc.pickCode_only (fun _ => id) _
  refine EndsIn.map (endsIn_bind_benign hpick fun picked st₁ _ h₁ => ?_)
  cases picked with
  | error e => exact endsIn_pure.2 (met_of_same hno h₁ _)
  | ok code =>
    refine endsIn_benign rfl fun (id : Uuid) st₂ h₂ => ?_
    have h₂ := h₁.trans h₂
    refine endsIn_store (fun _ _ _ _ _ _ _ h => by cases h) fun inp => ?_
    rcases Store.exec_spec ⟨st₂.db, inp.faults⟩ (.insertRoom id code title u pubkey migration nowMs)
      with ⟨⟨e, he⟩, hdb⟩ | ⟨hok, hdb⟩
    · rw [he, hdb]
      exact endsIn_pure.2 (met_of_same hno h₂ _)
    · rw [hok]
      refine endsIn_seat (fun e => endsIn_pure.2 ?_) fun db => ?_
      · -- the row is there
        refine ⟨fun hsame => ?_, fun hneg => absurd rfl hneg⟩
        obtain ⟨-, hfree, hcodes⟩ := Db.exec_insertRoom hdb
        have hrow := hcodes id
        rw [if_pos rfl, Db.codeOf, (hsame rfl).rooms id, ← h₂.rooms id] at hrow
        exact absurd (hrow.symm.trans hfree) (by simp)
      · refine endsIn_benign rfl fun (wallMs : ℕ) st₃ _ => ?_
        obtain ⟨you, hyou⟩ := Option.isSome_iff_exists.1
          (selfView_new id code title u pubkey migration nowMs wallMs)
        dsimp only
        rw [hyou]
        refine endsIn_step (fun _ h => by cases h) fun _ _ _ _ => ?_
        refine endsIn_step (fun _ h => by cases h) fun _ _ _ _ => ?_
        exact endsIn_step (fun _ h => by cases h) fun _ _ _ _ => endsIn_pure.2 (met_of_ok hno)

/-- **A failed `join`** leaves nothing behind. -/
lemma join_met (code : String) (u : Uuid) (pubkey : PubKey) (name : String) (nowMs : ℤ) :
    EndsIn env label ((join code u pubkey name nowMs).Met st)
      (join code u pubkey name nowMs).program st := by
  have hno (f : Bool) : ¬(join code u pubkey name nowMs).Halfway st f := id
  refine EndsIn.map (endsIn_benign rfl fun (found : Option Uuid) st₁ h₁ => ?_)
  cases found with
  | none => exact endsIn_pure.2 (met_of_same (hno _) h₁ _)
  | some id =>
    refine endsIn_benign rfl fun (registered : Bool) st₂ h₂ => ?_
    have h₂ := h₁.trans h₂
    split
    · exact endsIn_pure.2 (met_of_same (hno _) h₂ _)
    · refine endsIn_locked fun inp s out hs hrun => ?_
      obtain ⟨⟨reply, s', store'⟩, hj, rfl⟩ := Option.map_eq_some_iff.1 hrun
      cases reply with
      | error e =>
        obtain ⟨hstate, hdb⟩ := joinLocked_error hj
        exact endsIn_pure.2 (met_of_same (hno _) (h₂.trans (.of_section hs hstate hdb rfl rfl)) _)
      | ok joined =>
        exact endsIn_step (fun _ h => by cases h) fun _ _ _ _ => endsIn_pure.2 (met_of_ok (hno _))

/-- **A lost connection of a viewer** that fails leaves nothing behind. -/
lemma connectionLost_met {u : Uuid} {nowMs : ℤ} {id : Uuid}
    (happlies : (connectionLost u nowMs id).Applies st) :
    EndsIn env label ((connectionLost u nowMs id).Met st)
      (connectionLost u nowMs id).program st := by
  have hno (f : Bool) : ¬(connectionLost u nowMs id).Halfway st f := fun h => h
  refine EndsIn.map (endsIn_read fun s hs => ?_)
  rw [if_neg (by simp [happlies s hs])]
  refine endsIn_store (fun _ _ _ _ _ _ _ h => by cases h) fun inp => ?_
  rcases Store.exec_spec ⟨st.db, inp.faults⟩ (.updateParticipantStatus id u .disconnected nowMs)
    with ⟨⟨e, he⟩, hdb⟩ | ⟨hok, hdb⟩
  · rw [he]
    exact endsIn_pure.2 (met_of_same (hno _) (.of_db hdb) _)
  · rw [hok]
    exact endsIn_locked fun _ _ _ _ _ => endsIn_pure.2 (met_of_ok (hno _))

/-- **`PERMISSION_SET`** that fails leaves nothing behind. -/
lemma permissionSet_met (envelope : Envelope) (p : Except String PermissionSetPayload) (u : Uuid) :
    EndsIn env label ((permissionSet envelope p u).Met st)
      (permissionSet envelope p u).program st := by
  have hno (f : Bool) : ¬(permissionSet envelope p u).Halfway st f := id
  refine EndsIn.map ?_
  unfold Proc.handlePermissionSet
  split
  · exact endsIn_pure.2 (met_of_same (hno _) (.refl st) _)
  · exact endsIn_pure.2 (met_of_same (hno _) (.refl st) _)
  · split
    · exact endsIn_pure.2 (met_of_same (hno _) (.refl st) _)
    · refine endsIn_benign rfl fun (registered : Bool) st₁ h₁ => ?_
      split
      · exact endsIn_pure.2 (met_of_same (hno _) h₁ _)
      · refine endsIn_locked fun inp s out hs hrun => ?_
        cases hrun
        dsimp only
        split
        · rename_i e he
          obtain ⟨hstate, hdb⟩ := permissionSetLocked_error he
          refine endsIn_pure.2 (met_of_same (hno _) (h₁.trans (.of_section hs hstate hdb ?_ rfl)) _)
          dsimp only
          rw [he]
        · exact endsIn_pure.2 (met_of_ok (hno _))

/-- Clearing the deadline of a row changes the tables unless the row has none. -/
lemma cleared_met (u : Uuid) (pubkey : PubKey) (nowMs : ℤ) (id : Uuid) :
    (rejoin u pubkey nowMs id).Met st true true { st with
      db := st.db.updateRoom id fun row => { row with hostDisconnectDeadlineMs := none } } := by
  unfold Db.updateRoom
  cases hrow : st.db.rooms.get id with
  | none => exact met_of_same (by simp [Halfway, hrow]) (.refl st) _
  | some row =>
    have hrooms (R : Uuid) :
        (st.db.rooms.insert id { row with hostDisconnectDeadlineMs := none }).get R = if R =
        id then some { row with hostDisconnectDeadlineMs := none } else st.db.rooms.get R :=
      AList.get_insert _ _ _ _
    cases hd : row.hostDisconnectDeadlineMs with
    | none =>
      have hhalf : ¬(rejoin u pubkey nowMs id).Halfway st true := by simp [Halfway, hrow, hd]
      have hsame : SameServer st { st with db := { st.db with
          rooms := st.db.rooms.insert id { row with hostDisconnectDeadlineMs := none } } } := by
        refine ⟨fun _ => rfl, rfl, rfl, fun _ => rfl, rfl, fun R => (hrooms R).trans ?_,
          fun _ => rfl, fun _ => rfl, rfl⟩
        split
        · rename_i hR
          rw [hR, hrow, ← hd]
        · rfl
      exact met_of_same hhalf hsame _
    | some deadline =>
      refine ⟨fun hsame => ?_, fun hneg => absurd ⟨rfl, by simp [hrow, hd]⟩ hneg⟩
      have hsame := ((hsame rfl).rooms id).symm.trans (hrooms id)
      rw [if_pos rfl, hrow] at hsame
      have := congrArg RoomRow.hostDisconnectDeadlineMs (Option.some.inj hsame)
      simp [hd] at this

/-- **A failed `rejoin`** of a host in the grace period leaves the room's row without its deadline
when the seat is refused. -/
lemma rejoin_met (u : Uuid) (pubkey : PubKey) (nowMs : ℤ) (id : Uuid) :
    EndsIn env label ((rejoin u pubkey nowMs id).Met st) (rejoin u pubkey nowMs id).program st := by
  have hno : ¬(rejoin u pubkey nowMs id).Halfway st false := by simp [Halfway]
  refine EndsIn.map (endsIn_read fun s hs => ?_)
  refine endsIn_read fun s' hs' => ?_
  cases hs.symm.trans hs'
  dsimp only
  split
  · rename_i hgrace
    simp only [Bool.and_eq_true] at hgrace
    refine endsIn_store (fun _ _ _ _ _ _ _ h => by cases h) fun inp => ?_
    have htotal := Db.exec.eq_def st.db (.setHostDisconnectDeadline id none)
    rcases exec_of_total inp htotal with ⟨-, e, he, hdb⟩ | ⟨-, hok, hdb⟩
    · rw [he, hdb]
      exact endsIn_pure.2 (met_of_same hno (.of_db rfl) _)
    · rw [hok, hdb]
      refine endsIn_read fun s' hs' => ?_
      cases hs.symm.trans hs'
      cases hh : s.host with
      | none => simp [Proc.isHostUser, hh] at hgrace
      | some host =>
        dsimp only
        refine endsIn_seat (fun e => endsIn_pure.2 ?_) fun db => ?_
        · exact cleared_met u pubkey nowMs id
        · refine endsIn_locked fun _ _ _ _ _ => ?_
          exact endsIn_step (fun _ h => by cases h) fun _ _ _ _ => endsIn_pure.2 (met_of_ok hno)
  · refine endsIn_store (fun _ _ _ _ _ _ _ h => by cases h) fun inp => ?_
    rcases Store.exec_spec ⟨st.db, inp.faults⟩ (.updateParticipantStatus id u .connected nowMs)
      with ⟨⟨e, he⟩, hdb⟩ | ⟨hok, hdb⟩
    · rw [he]
      exact endsIn_pure.2 (met_of_same hno (.of_db hdb) _)
    · rw [hok]
      exact endsIn_locked fun _ _ _ _ _ => endsIn_pure.2 (met_of_ok hno)

end PersistFirst

end Operations

/-! ### Leaving -/

/-- The record of the leaver: a host whose transport is lost is waited for. -/
def Departed (s : RoomState) (u : Uuid) (intentional : Bool) : Prop :=
  ∃ p ∈ s.participants, p.userId = u ∧
    (p.status = .left ∨ (intentional = false ∧ p.status = .reconnecting))

/-- **A departure**: the room is as the leave has decided, its announcements have gone out, every
other room is as before, and a room that has ended is gone from the registry. -/
structure Departs (cfg : RoomRegistryConfig) (u : Uuid) (intentional : Bool) (nowMs : ℤ)
    (st : ServerState) (id : Uuid) (h : List Step) (events : List RoomEvent) (st' : ServerState) :
    Prop where
  decided : ∃ s out, st.heap.get id = some s ∧ leaveLocked cfg s u intentional nowMs = some out ∧
    events = out.events ∧ st'.heap.get id = some out.state ∧ Departed out.state u intentional ∧
      (out.state.state = .ended → id ∉ st'.byId ∧ st'.tx.get id = none ∧
        st'.manifestCache.get id = none)
  published : sentTo id h = if (st.tx.get id).isSome then
    events.map fun e => eventToBroadcastItem e id (some u) else []
  others : ∀ R, R ≠ id → st'.heap.get R = st.heap.get R ∧ st'.tx.get R = st.tx.get R

/-- **A leave completes**, or it is refused: to a user who is in none of the rooms, or whose room
has ended. -/
def LeaveCompletes (cfg : RoomRegistryConfig) (u : Uuid) (wanted : Option Uuid) (intentional : Bool)
    (nowMs : ℤ) (st : ServerState) (h : List Step)
    (result : Except RoomError (List RoomEvent × Option RoomSummary)) (st' : ServerState) : Prop :=
  match result with
  | .error e => e = .notJoined ∧ SameServer st st' ∧
      ((∀ id ∈ st.byId, wanted.all (· = id) = true → ∀ s, st.heap.get id = some s →
          s.isMember u = false) ∨
        ∃ id ∈ st.byId, ∃ s, st.heap.get id = some s ∧ s.isMember u = true ∧ s.state = .ended)
  | .ok (events, _) => ∃ id ∈ st.byId, wanted.all (· = id) = true ∧
      Departs cfg u intentional nowMs st id h events st'

lemma sentTo_cons (R : Uuid) (d : Step) (h : List Step) :
    sentTo R (d :: h) = d.sent R ++ sentTo R h :=
  rfl

/-- What a scan of `ids` for a room of `u` finds. -/
def Scanned (st : ServerState) (u : Uuid) (wanted : Option Uuid) (ids : List Uuid) :
    Option Uuid → Prop
  | none => ∀ id ∈ ids, wanted.all (· = id) = true → ∀ s, st.heap.get id = some s →
      s.isMember u = false
  | some id => id ∈ ids ∧ wanted.all (· = id) = true ∧
      ∃ s, st.heap.get id = some s ∧ s.isMember u = true

/-- A room that is not the one comes first. -/
lemma Scanned.cons {u id : Uuid} {wanted found : Option Uuid} {ids : List Uuid}
    (hq : Scanned st u wanted ids found)
    (hid : wanted.all (· = id) = true → ∀ s, st.heap.get id = some s → s.isMember u = false) :
    Scanned st u wanted (id :: ids) found := by
  cases found with
  | none =>
    intro id' hmem
    rcases List.mem_cons.1 hmem with rfl | hmem
    · exact hid
    · exact hq id' hmem
  | some id' => exact ⟨List.mem_cons_of_mem _ hq.1, hq.2⟩

/-- **What the scan of a leave finds.** -/
lemma findRoomOf_ends (u : Uuid) (wanted : Option Uuid) (ids : List Uuid) :
    (system env).Ends label (fun h found st' => st' = st ∧ (∀ R, sentTo R h = []) ∧
      Scanned st u wanted ids found) (Proc.findRoomOf u wanted ids) st := by
  induction ids with
  | nil => exact System.ends_ret.2 ⟨rfl, fun _ => rfl, fun _ h => absurd h List.not_mem_nil⟩
  | cons id ids ih =>
    unfold Proc.findRoomOf
    split
    · rename_i hskip
      refine ih.mono fun h found st' hq => ⟨hq.1, hq.2.1, hq.2.2.cons fun hw => ?_⟩
      cases wanted <;> simp_all
    · rename_i hskip
      have hwanted : wanted.all (· = id) = true := by cases wanted <;> simp_all
      refine ends_read fun inp s hs => ?_
      have hquiet (R : Uuid) : Step.sent R ⟨label, .read id, inp, s, st, st⟩ = [] :=
        Step.sent_of_eq rfl
      split
      · rename_i hmember
        refine System.ends_ret.2 ⟨rfl, fun R => ?_, List.mem_cons_self, hwanted, s, hs, hmember⟩
        rw [sentTo_cons, hquiet]
        rfl
      · rename_i hmember
        refine ih.mono fun h found st' hq => ⟨hq.1, fun R => ?_, hq.2.2.cons fun _ s' hs' => ?_⟩
        · rw [sentTo_cons, hquiet, hq.2.1]
          rfl
        · cases hs.symm.trans hs'
          simpa using hmember

/-- The channel of `id` has taken the items, and nothing else has changed. -/
structure Announced (id : Uuid) (items : List BroadcastItem) (st : ServerState) (h : List Step)
    (st' : ServerState) : Prop where
  heap : st'.heap = st.heap
  byId : st'.byId = st.byId
  manifestCache : st'.manifestCache = st.manifestCache
  tx : ∀ R, R ≠ id → st'.tx.get R = st.tx.get R
  channel : (st'.tx.get id).isSome = (st.tx.get id).isSome
  sent : sentTo id h = if (st.tx.get id).isSome then items else []

/-- **The announcements of a leave go out.** -/
lemma announceLeave_ends (id u : Uuid) (events : List RoomEvent) (st : ServerState) :
    (system env).Ends label (fun h _ st' => Announced id
      (events.map fun e => eventToBroadcastItem e id (some u)) st h st')
      (Proc.announceLeave id u events) st := by
  induction events generalizing st with
  | nil => exact System.ends_ret.2 ⟨rfl, rfl, rfl, fun _ _ => rfl, rfl, by simp⟩
  | cons e events ih =>
    refine System.ends_op.2 fun inp r st₁ hd => ?_
    cases hd
    refine (ih (st.publish id (eventToBroadcastItem e id (some u)))).mono fun h _ st' hq => ?_
    have hchannel : ((st.publish id (eventToBroadcastItem e id (some u))).tx.get id).isSome =
        (st.tx.get id).isSome := by
      rw [ServerState.publish_tx, Option.isSome_map]
    refine ⟨by rw [hq.heap]; simp, by rw [hq.byId]; simp, by rw [hq.manifestCache]; simp,
      fun R hR => ?_, by rw [hq.channel, hchannel], ?_⟩
    · have hne : ¬id = R := fun h => hR h.symm
      rw [hq.tx R hR, ServerState.publish_tx, if_neg hne]
      simp
    · rw [sentTo_cons, sent_publish, hq.sent, hchannel]
      by_cases htx : (st.tx.get id).isSome = true
      · rw [if_pos ⟨rfl, htx⟩, if_pos htx, if_pos htx]
        rfl
      · rw [if_neg fun h => htx h.2, if_neg htx, if_neg htx]
        rfl

/-- **`remove_room` leaves nothing of the room.** -/
lemma removeRoom_ends {id : Uuid} (hid : id ∈ st.byId) :
    (system env).Ends label (fun h _ st' => (∀ R, sentTo R h = []) ∧ st'.heap = st.heap ∧
      id ∉ st'.byId ∧ st'.tx.get id = none ∧ st'.manifestCache.get id = none ∧
      ∀ R, R ≠ id → st'.tx.get R = st.tx.get R) (Proc.removeRoom id) st := by
  have hfound : st.holds id .byId = true := decide_eq_true hid
  refine ends_remove fun inp₁ => ?_
  rw [if_pos hfound]
  refine ends_read fun inp₂ s hs => ?_
  refine ends_remove fun inp₃ => ends_remove fun inp₄ => ?_
  refine System.ends_ret.2 ⟨fun R => ?_, by simp, ?_, ?_, ?_, fun R hR => ?_⟩
  · simp only [sentTo_cons, sent_remove, Step.sent_of_eq, sentTo_nil, List.append_nil]
  · simp [ServerState.remove_byId]
  · simp [ServerState.remove_tx]
  · simp [ServerState.remove_manifestCache]
  · simp [ServerState.remove_tx, hR]

/-- The section of a leave, whatever the store answers. -/
lemma leave_section {u : Uuid} {intentional : Bool} {nowMs : ℤ} {senv : SectionEnv} {store : Store}
    {s : RoomState} {out : SectionOutcome (Section.leave u intentional nowMs).Reply}
    (hrun : Section.run senv store s (.leave u intentional nowMs) = some out) :
    (leaveLocked senv.cfg s u intentional nowMs = none ∧ out = .quiet none s store) ∨
      ∃ left store', leaveLocked senv.cfg s u intentional nowMs = some left ∧
        out = .quiet (some ⟨left.events, left.state.state = .ended⟩) left.state store' := by
  simp only [Section.run] at hrun
  split at hrun
  · rename_i hleft
    cases hrun
    exact .inl ⟨hleft, rfl⟩
  · rename_i left hleft
    cases hrun
    exact .inr ⟨left, _, hleft, rfl⟩

/-- A member whose leave is refused is in a room that has ended. -/
lemma ended_of_leaveLocked {cfg : RoomRegistryConfig} {s : RoomState} {u : Uuid}
    {intentional : Bool} {nowMs : ℤ} (h : leaveLocked cfg s u intentional nowMs = none)
    (hmember : s.isMember u = true) :
    s.state = .ended := by
  unfold leaveLocked at h
  split at h
  · assumption
  · obtain ⟨p, hp, hlive⟩ := List.any_eq_true.1 hmember
    split at h
    · rename_i hnone
      exact absurd hlive (List.find?_eq_none.1 hnone p hp)
    · split at h
      · cases h
      split at h
      · cases h
      split at h
      · split at h <;> cases h
      · cases h

/-- The leaver is marked. -/
lemma departed_mark {s : RoomState} {u : Uuid} {leaver : ParticipantRecord} {intentional : Bool}
    {status : ParticipantStatus} (nowMs : ℤ) (hleaver : s.liveRecord u = some leaver)
    (hstatus : status = .left ∨ (intentional = false ∧ status = .reconnecting)) :
    Departed (s.mark u status nowMs) u intentional := by
  have hsat := List.find?_some hleaver
  have hmem := List.mem_of_find?_eq_some hleaver
  simp only [Bool.and_eq_true, beq_iff_eq] at hsat
  unfold Departed RoomState.mark
  generalize s.participants = l at hmem
  induction l with
  | nil => cases hmem
  | cons p l ih =>
    rw [updateFirst]
    split
    · rename_i hp
      simp only [Bool.and_eq_true, beq_iff_eq] at hp
      exact ⟨_, List.mem_cons_self, hp.1, hstatus⟩
    · rename_i hp
      rcases List.mem_cons.1 hmem with rfl | hmem
      · exact absurd (by simpa using hsat) hp
      · obtain ⟨q, hq, hqs⟩ := ih hmem
        exact ⟨q, List.mem_cons_of_mem _ hq, hqs⟩

/-- An election leaves the records their status. -/
lemma Departed.elected {s s' : RoomState} {u v : Uuid} {intentional : Bool}
    (h : Departed s u intentional) (he : electNewHost s = some (v, s')) :
    Departed s' u intentional := by
  obtain ⟨-, -, -, -, rfl⟩ := electNewHost_spec he
  obtain ⟨p, hp, hu, hst⟩ := h
  have hstatus : (p.crown v).status = p.status := congrArg Seat.status (crown_seat v p)
  exact ⟨_, List.mem_map_of_mem hp, by rw [crown_userId, hu], by rw [hstatus]; exact hst⟩

/-- **A leave that is not refused** marks the leaver. -/
lemma departed_of_leaveLocked {cfg : RoomRegistryConfig} {s : RoomState} {u : Uuid}
    {intentional : Bool} {nowMs : ℤ} {left : LeaveOutcome}
    (h : leaveLocked cfg s u intentional nowMs = some left) :
    Departed left.state u intentional := by
  obtain ⟨-, leaver, hleaver, rfl, hcase⟩ := leaveLocked_spec h
  cases hcase with
  | view => exact departed_mark _ hleaver (.inl rfl)
  | close => exact departed_mark _ hleaver (.inl rfl)
  | migrate v m _ _ he => exact (departed_mark _ hleaver (.inl rfl)).elected he
  | wait =>
    have hwait : Departed
        { s.mark leaver.userId .reconnecting nowMs with
          hostDisconnectDeadlineMs := some (nowMs + cfg.hostDisconnectGraceMs) }
        leaver.userId false := departed_mark nowMs hleaver (.inr ⟨rfl, rfl⟩)
    unfold leaveWaiting
    dsimp only
    split
    · cases he : electNewHost { s.mark leaver.userId .reconnecting nowMs with
          hostDisconnectDeadlineMs := some (nowMs + cfg.hostDisconnectGraceMs) } with
      | none => exact hwait
      | some e => exact hwait.elected he
    · exact hwait

/-- **After its section** a leave goes out, and a room that has ended goes. -/
lemma depart_ends {cfg : RoomRegistryConfig} {u id : Uuid} {intentional : Bool} {nowMs : ℤ}
    {s : RoomState} {left : LeaveOutcome} (hs : st.heap.get id = some s)
    (hleft : leaveLocked cfg s u intentional nowMs = some left) (hid : id ∈ st₁.byId)
    (hheap : ∀ R, st₁.heap.get R = if R = id then some left.state else st.heap.get R)
    (htx : ∀ R, st₁.tx.get R = st.tx.get R) :
    (system env).Ends label (fun h result st' => ∃ summary, result = .ok (left.events, summary) ∧
        Departs cfg u intentional nowMs st id h left.events st')
      (do
        Proc.announceLeave id u left.events
        if decide (left.state.state = .ended) = true then do
          Proc.removeRoom id
          pure (.ok (left.events, none))
        else do
          let s ← Proc.read id
          pure (.ok (left.events, some s.snapshot)) :
        Proc (Except RoomError (List RoomEvent × Option RoomSummary))) st₁ := by
  have hroom : st₁.heap.get id = some left.state := by rw [hheap, if_pos rfl]
  refine System.Ends.bind (announceLeave_ends id u left.events st₁) fun h _ st₂ hq => ?_
  have hothers {R : Uuid} (hR : R ≠ id) :
      st₂.heap.get R = st.heap.get R ∧ st₂.tx.get R = st.tx.get R := by
    rw [hq.heap, hheap, if_neg hR, hq.tx R hR, htx]
    exact ⟨rfl, rfl⟩
  have hsent : sentTo id h = if (st.tx.get id).isSome then
      left.events.map fun e => eventToBroadcastItem e id (some u) else [] := by
    rw [hq.sent, htx]
  split
  · refine System.Ends.bind (removeRoom_ends (hq.byId ▸ hid)) fun h' _ st₃ hq' => ?_
    obtain ⟨hquiet, hheap', hbyId, htx', hcache, hkept⟩ := hq'
    refine System.ends_ret.2 ⟨none, rfl, ⟨s, left, hs, hleft, rfl, ?_,
      departed_of_leaveLocked hleft, fun _ => ⟨hbyId, htx', hcache⟩⟩, ?_, fun R hR => ?_⟩
    · rw [hheap', hq.heap, hroom]
    · rw [List.append_nil, sentTo_append, hquiet, List.append_nil, hsent]
    · rw [hheap', hkept R hR]
      exact hothers hR
  · rename_i hopen
    refine ends_read fun inp s' hs' => ?_
    have hquiet : Step.sent id ⟨label, .read id, inp, s', st₂, st₂⟩ = [] := Step.sent_of_eq rfl
    refine System.ends_ret.2 ⟨some s'.snapshot, rfl, ⟨s, left, hs, hleft, rfl, ?_,
      departed_of_leaveLocked hleft, fun h => absurd (decide_eq_true h) hopen⟩, ?_,
      fun R hR => hothers hR⟩
    · rw [hq.heap, hroom]
    · rw [sentTo_append, sentTo_singleton, hquiet, List.append_nil, hsent]

/-- **`leave_room` completes**, whatever store calls fail. -/
theorem leaveRoom_completes (env : Env) (label : Op) (u : Uuid) (wanted : Option Uuid)
    (intentional : Bool) (nowMs : ℤ) (st : ServerState) :
    (system env).Ends label (LeaveCompletes env.cfg u wanted intentional nowMs st)
      (Proc.leaveRoom u wanted intentional nowMs) st := by
  refine ends_rooms fun inp₁ ids hperm => ?_
  have hrooms (R : Uuid) : Step.sent R ⟨label, .rooms, inp₁, ids, st, st⟩ = [] :=
    Step.sent_of_eq rfl
  refine System.Ends.bind (findRoomOf_ends u wanted ids) fun h found st₂ hq => ?_
  obtain ⟨rfl, hsent, hscan⟩ := hq
  cases found with
  | none => exact System.ends_ret.2 ⟨rfl, .refl _, .inl fun id hid =>
    hscan id (hperm.mem_iff.2 hid)⟩
  | some id =>
    obtain ⟨hmem, hwanted, s, hs, hmember⟩ := hscan
    have hid := hperm.mem_iff.1 hmem
    refine ends_locked fun inp₂ s' out hs' hrun => ?_
    cases hs.symm.trans hs'
    rcases leave_section hrun with ⟨hnone, rfl⟩ | ⟨left, store', hleft, rfl⟩
    · refine System.ends_ret.2 ⟨rfl, .of_section hs rfl rfl rfl rfl, .inr ?_⟩
      exact ⟨id, hid, s, hs, hmember, ended_of_leaveLocked hnone hmember⟩
    · have hleftId : left.state.id = id := (Section.run_framed hrun).id.trans (Heap.get_id hs)
      refine (depart_ends hs hleft (by simpa using hid) (fun R => ?_) fun R => ?_).mono
        fun h' result st' hq => ?_
      · rw [ServerState.apply_heap, Heap.get_put]
        exact congrArg (fun i => if R = i then _ else _) hleftId
      · rw [ServerState.apply_tx]
        simp [SectionOutcome.quiet, ServerState.itemsTo]
      · obtain ⟨summary, rfl, hdeparts⟩ := hq
        refine ⟨id, hid, hwanted, { hdeparts with published := ?_ }⟩
        rw [sentTo_cons, hrooms, sentTo_append, hsent, sentTo_cons, sent_section,
          hdeparts.published]
        simp [SectionOutcome.quiet, ServerState.itemsTo]

/-! ### Every store failure -/

/-- **Store failures.**  An operation that persists first changes nothing when it fails, unless it
fails halfway; a leave completes. -/
theorem store_failures (env : Env) (label : Op) (st : ServerState) :
    (∀ op : PersistFirst, op.Applies st → ∀ h failed st',
      (system env).Solo label op.program st h failed st' →
        op.Met st (h.any Step.refusesSeat) failed st') ∧
    ∀ u wanted intentional nowMs h result st',
      (system env).Solo label (Proc.leaveRoom u wanted intentional nowMs) st h result st' →
        LeaveCompletes env.cfg u wanted intentional nowMs st h result st' := by
  refine ⟨fun op happlies => ?_, fun u wanted intentional nowMs => ?_⟩
  · cases op with
    | create title u pubkey migration nowMs =>
      exact PersistFirst.create_met title u pubkey migration nowMs
    | join code u pubkey name nowMs => exact PersistFirst.join_met code u pubkey name nowMs
    | connectionLost u nowMs id => exact PersistFirst.connectionLost_met happlies
    | rejoin u pubkey nowMs id => exact PersistFirst.rejoin_met u pubkey nowMs id
    | permissionSet envelope p u => exact PersistFirst.permissionSet_met envelope p u
  · exact leaveRoom_completes env label u wanted intentional nowMs st

/-! ### A seat that is refused -/

namespace SeatRefused

/-- The input of a store call that fails. -/
def refused : Input := { Input.plain [] 10 "ABCDEF" with faults := [some "disk I/O error"] }

/-- A user creates a room. -/
def create : Op := .create "room" 1 (PubKey.filled 1) true 0

/-- The row of the room is inserted, and the host's is refused. -/
def inputs : List Input := List.replicate 5 (.plain [] 10 "ABCDEF") ++ [refused]

/-- The room `1`, whose host the server waits for. -/
def waiting : Db where
  rooms := AList.insert 1
    ⟨1, "ABCDEF", "room", 1, PubKey.filled 1, true, .open, some 30000, 0, none⟩ ∅
  participants :=
    AList.insert (1, 1) ⟨PubKey.filled 1, "", true, 0, none, 0, .connected, Cap.host⟩ ∅
  manifests := ∅

/-- The row loses its deadline, and the host's is refused. -/
def rejoinInputs : List Input := List.replicate 4 (.plain [1] 10 "ABCDEF") ++ [refused]

/-- What the program did alone, its result and the state after it. -/
def alone (op : PersistFirst) (st : ServerState) (inputs : List Input) :
    Option (List Step × Bool × ServerState) := (system .plain).perform create op.program st inputs

def created : PersistFirst := .create "room" 1 (PubKey.filled 1) true 0

def rejoined : PersistFirst := .rejoin 1 (PubKey.filled 1) 0 1

/-- `create` fails with the row of the room in the tables, and the next boot finds it. -/
lemma alone_created : ((alone created .empty inputs).any fun out => out.2.1 &&
    (out.2.2.db.rooms.get 10).isSome && (boot out.2.2.db fun _ => 0).byId = [10]) = true := by
  decide +kernel

/-- `rejoin` fails because the seat is refused. -/
lemma alone_rejoined : ((alone rejoined (boot waiting fun _ => 0) rejoinInputs).any fun out =>
    out.2.1 && out.1.any Step.refusesSeat) = true := by decide +kernel

end SeatRefused

/-- **A failed `create`** leaves a row that the next boot makes a room of. -/
theorem failed_create_rehydrates : ∃ h st',
    (system .plain).Solo SeatRefused.create SeatRefused.created.program .empty h true st' ∧
      ¬SameServer .empty st' ∧ (boot st'.db fun _ => 0).byId = [10] := by
  obtain ⟨⟨h, failed, st'⟩, hp, hout⟩ := (Option.any_eq_true _ _).1 SeatRefused.alone_created
  simp only [Bool.and_eq_true, decide_eq_true_eq] at hout
  obtain ⟨⟨rfl, hrow⟩, hboot⟩ := hout
  refine ⟨h, st', System.solo_of_perform hp, fun hsame => ?_, hboot⟩
  rw [hsame.rooms 10] at hrow
  cases hrow

/-- **A failed `rejoin`** of a host in the grace period is not undone. -/
theorem store_failures_rejoin : ∃ h st',
    (system .plain).Solo SeatRefused.create SeatRefused.rejoined.program
      (boot SeatRefused.waiting fun _ => 0) h true st' ∧
      ¬SameServer (boot SeatRefused.waiting fun _ => 0) st' := by
  obtain ⟨⟨h, failed, st'⟩, hp, hout⟩ := (Option.any_eq_true _ _).1 SeatRefused.alone_rejoined
  simp only [Bool.and_eq_true] at hout
  obtain ⟨rfl, hrefused⟩ := hout
  have hsolo := System.solo_of_perform hp
  have hmet := (store_failures .plain SeatRefused.create _).1 SeatRefused.rejoined
    trivial _ _ _ hsolo
  exact ⟨h, st', hsolo, fun hsame => hmet.1 (fun _ => hsame) ⟨hrefused, by decide +kernel⟩⟩

end Locast.Server
