import Locast.Server.RoomLife

/-!
# Rooms are isolated

What an envelope's task does to rooms other than the one the envelope names: nothing, unless the
envelope creates or joins a room, and then it touches that room alone.
-/

namespace Locast.Server

open Locast.Lib Locast.Protocol Locast.Rooms

/-! ### The room of a step -/

/-- The room that an effect changes or reaches. -/
def Effect.room : Effect → Option Uuid
  | .section id _ | .publish id _ | .putManifest id _ | .publishManifest id _ | .insertCode _ id
  | .insertChannel id | .remove _ id => some id
  | .insertRoom s => some s.id
  | .store request => some request.roomId
  | _ => none

lemma room_of_benign {e : Effect} (he : e.benign = true) : e.room = none := by
  cases e <;> first | rfl | cases he

/-- The room `id` is untouched: its record, its lock, its channel, its handle, its cached manifest
and its rows. -/
structure Untouched (id : Uuid) (st st' : ServerState) : Prop where
  heap : st'.heap.get id = st.heap.get id
  held : st'.held.count id = st.held.count id
  tx : st'.tx.get id = st.tx.get id
  byId : id ∈ st'.byId ↔ id ∈ st.byId
  manifestCache : st'.manifestCache.get id = st.manifestCache.get id
  rows : Db.SameRows id st.db st'.db

variable {env : Env} {guard : List Step → Step → Prop} {st₀ st st' : ServerState} {h : List Step}
  {p : Tasks}

/-- **A step touches no room but its own.** -/
lemma handle_untouched {inp : Input} {e : Effect} {r : e.Resp} {id : Uuid} (hhomed : e.homed)
    (hid : e.room ≠ some id) (h : e.handle env inp st = some (r, st')) : Untouched id st st' := by
  by_cases hb : e.benign = true
  · obtain ⟨hheap, htx, hbyId, hdb, -, hcache, hheld⟩ := handle_benign hb h
    exact ⟨by rw [hheap], by rw [hheld], by rw [htx], by rw [hbyId], by rw [hcache],
      by rw [hdb]; exact .refl id st.db⟩
  cases e with
  | «section» id' sec =>
    have hne : id ≠ id' := fun h => hid (congrArg some h.symm)
    obtain ⟨hheap, htx⟩ := handle_section_frame h hne hhomed
    obtain ⟨s, out, hs, hrun, -, rfl⟩ := handle_section h
    refine ⟨hheap, ?_, htx, by simp, by simp, ?_⟩
    · rw [ServerState.apply_held]
      split
      · exact List.count_cons_of_ne hne.symm
      · rfl
    · rw [ServerState.apply_db]
      exact Section.run_sameRows hrun (by rw [Heap.get_id hs]; exact hne)
  | store request =>
    have hne : id ≠ request.roomId := fun h => hid (congrArg some h.symm)
    cases h
    refine ⟨rfl, rfl, rfl, Iff.rfl, rfl, ?_⟩
    rcases Store.exec_spec ⟨st.db, inp.faults⟩ request with ⟨-, hdb⟩ | ⟨-, hdb⟩
    · exact hdb ▸ .refl id st.db
    · exact Db.exec_sameRows hdb hne
  | publish id' item =>
    have hne : id' ≠ id := fun h => hid (congrArg some h)
    cases h
    refine ⟨by simp, by simp, ?_, by simp, by simp, by simpa using .refl id st.db⟩
    rw [ServerState.publish_tx, if_neg hne]
    simp
  | putManifest id' c =>
    have hne : id ≠ id' := fun h => hid (congrArg some h.symm)
    cases h
    refine ⟨rfl, rfl, rfl, Iff.rfl, ?_, .refl id st.db⟩
    rw [ServerState.putManifest_manifestCache, if_neg hne]
  | publishManifest id' c =>
    have hne : id' ≠ id := fun h => hid (congrArg some h)
    cases h
    refine ⟨by simp, ?_, ?_, by simp, by simp, by simpa using .refl id st.db⟩
    · rw [ServerState.publishManifest_held, List.count_erase_of_ne hne.symm]
    · rw [ServerState.publishManifest_tx, itemsTo_manifest, if_neg hne]
      simp
  | insertRoom s =>
    have hne : id ≠ s.id := fun h => hid (congrArg some h.symm)
    simp only [Effect.handle] at h
    split at h
    · cases h
    · cases h
      refine ⟨?_, rfl, rfl, by simp [hne], rfl, .refl id st.db⟩
      rw [ServerState.insertRoom_heap, Heap.get_put, if_neg hne]
  | insertCode code id' =>
    cases h
    exact ⟨rfl, rfl, rfl, Iff.rfl, rfl, .refl id st.db⟩
  | insertChannel id' =>
    have hne : id ≠ id' := fun h => hid (congrArg some h.symm)
    cases h
    refine ⟨rfl, rfl, ?_, Iff.rfl, rfl, .refl id st.db⟩
    rw [ServerState.insertChannel_tx, if_neg hne]
  | remove map id' =>
    have hne : id ≠ id' := fun h => hid (congrArg some h.symm)
    cases h
    refine ⟨by simp, by cases map <;> rfl, ?_, ?_, ?_, by simpa using .refl id st.db⟩
    · rw [ServerState.remove_tx, if_neg fun h => hne h.2]
    · rw [ServerState.remove_byId]
      split <;> simp [hne]
    · rw [ServerState.remove_manifestCache, if_neg fun h => hne h.2]
  | _ => exact absurd rfl hb

lemma untouched_of_run (r : RunFrom env guard st₀ h p) :
    ∀ d ∈ h, ∀ id, d.effect.room ≠ some id → Untouched id d.before d.after :=
  fun d hd _ hid => handle_untouched (homed_of_run r d hd) hid (RunFrom.handled r d hd)

/-! ### Codes -/

/-- The codes of `id` are the same in both states. -/
def SameCodes (id : Uuid) (st st' : ServerState) : Prop :=
  ∀ code, st'.byCode.get code = some id ↔ st.byCode.get code = some id

/-- **Where the codes are kept apart, a step leaves the codes of other rooms alone.** -/
lemma CodesInv.sameCodes {gs : List Booking} {i : ℕ} {g : Booking} {d : Step} {id : Uuid}
    (hI : CodesInv d.before gs) (hi : gs[i]? = some g) (ha : booking.allows g d.effect)
    (hd : (system env).Handled d) (hid : d.effect.room ≠ some id) :
    SameCodes id d.before d.after := by
  have hc := step_cases hd
  have hsame {st st' : ServerState} (h : st'.byCode = st.byCode) : SameCodes id st st' :=
    fun code => by rw [h]
  cases hc with
  | insertCode op inp before code id' =>
    have hne : id ≠ id' := fun h => hid (congrArg some h.symm)
    obtain rfl : g = .room id' code := ha
    obtain ⟨s, hs, hcode⟩ := hI.inserted id' code (List.mem_of_getElem? hi)
    intro c
    rw [ServerState.insertCode_byCode]
    split
    · rename_i hcc
      subst hcc
      refine ⟨fun h => absurd (Option.some.inj h) hne.symm, fun h => ?_⟩
      -- the code belongs to one room
      obtain ⟨s', hs', hcode'⟩ := hI.code c id h
      exact absurd (hI.room_unique hs' hs (hcode'.trans hcode.symm)) hne
    · exact Iff.rfl
  | remove op inp before map id' =>
    have hne : id ≠ id' := fun h => hid (congrArg some h.symm)
    cases hs : before.heap.get id' with
    | none =>
      refine hsame ?_
      cases map <;> simp [ServerState.remove, hs]
    | some s =>
      refine fun c => ⟨fun h => ?_, hI.remove_byCode (by rw [hs]; rfl) map hne⟩
      rw [ServerState.remove_byCode _ _ _ hs] at h
      split at h
      · cases h
      · exact h
  | «section» => exact hsame (by simp)
  | publish => exact hsame (by simp)
  | publishManifest => exact hsame (by simp)
  | insertRoom | insertChannel | putManifest => exact hsame rfl
  | minor _ _ _ _ _ hcode => exact hsame hcode

/-- **Codes are isolated** in every run from a server that keeps them apart. -/
lemma sameCodes_of_run (r : RunFrom env guard st₀ h p) (h₀ : CodesInv st₀ []) :
    ∀ d ∈ h, ∀ id, d.effect.room ≠ some id → SameCodes id d.before d.after := by
  refine (System.Run.invariant booking (fun _ => .none) (fun _ _ => True)
    (fun h st gs => CodesInv st gs ∧
      ∀ d ∈ h, ∀ id, d.effect.room ≠ some id → SameCodes id d.before d.after)
    (program_booking env) ⟨h₀, fun d hd => absurd hd List.not_mem_nil⟩ (fun h st gs _ hI => ?_)
    (fun _ _ d _ hd => handled_answers hd) (fun h gs i g d hI hi ha hd _ => ?_) r).1.2
  · exact ⟨{ hI.1 with
      booked := fun id c hc => hI.1.booked id c (by simpa using hc)
      inserted := fun id c hc => hI.1.inserted id c (by simpa using hc) }, hI.2⟩
  · refine ⟨hI.1.step hi ha hd, fun d' hd' id hid => ?_⟩
    rcases List.mem_append.1 hd' with hd' | hd'
    · exact hI.2 d' hd' id hid
    · obtain rfl := List.mem_singleton.1 hd'
      exact hI.1.sameCodes hi ha hd hid

/-! ### What each kind touches -/

/-- Effects about no room but `R`. -/
def Effect.within (R : Uuid) (e : Effect) : Prop := ∀ id, e.room = some id → id = R

lemma within_of_benign {R : Uuid} {e : Effect} (h : e.benign = true) : e.within R := by
  intro id hid
  rw [room_of_benign h] at hid
  cases hid

lemma within_of_room {R : Uuid} {e : Effect} (h : e.room = some R) : e.within R :=
  fun _ hid => (Option.some.inj (h.symm.trans hid)).symm

lemma dispatched_within {envelope : Envelope} {u : Uuid} {pubkey : PubKey} {R : Uuid}
    (hR : envelope.roomId = some R) {e : Effect} (h : Proc.Dispatched envelope u pubkey e) :
    e.within R := by
  cases h with
  | benign h => exact within_of_benign h
  | «section» hid => exact within_of_room (hid.symm.trans hR)
  | relay hid => exact within_of_room (hid.symm.trans hR)
  | putManifest hid => exact within_of_room (hid.symm.trans hR)
  | publishManifest hid => exact within_of_room (hid.symm.trans hR)

/-- The kinds that may touch rooms their envelope does not name. -/
def crossesRooms : Body → Bool
  | .presence | .roomCreate _ | .roomJoinRequest _ => true
  | _ => false

/-- The task that dispatches an envelope with a room stays within it. -/
lemma dispatchAuthed_within (env : Env) {envelope : Envelope} {R : Uuid} (u : Uuid)
    (pubkey : PubKey) (hR : envelope.roomId = some R)
    (hkind : crossesRooms envelope.body = false) :
    Only (Effect.within R) (fun _ => True) (Proc.dispatchAuthed env envelope u pubkey) := by
  by_cases hbound : Proc.isRoomBound envelope.body = true
  · exact (Proc.dispatchAuthed_only env hbound).mono (fun _ => dispatched_within hR)
      fun _ _ => trivial
  have hleave : envelope.body = .roomLeave := by
    cases hb : envelope.body <;> simp_all [crossesRooms, Proc.isRoomBound]
  refine Only.mono (Q := fun out => out.events = []) ?_ (fun _ h => h) fun _ _ => trivial
  refine Proc.dispatchAuthed_sat (fun _ _ h => h)
    (fun e he => ⟨within_of_benign he, fun _ _ => rfl⟩) (fun _ h => h) (fun nowMs => ?_) ?_
  · simp only [Proc.handleBody, hleave, hR]
    have hwanted {id : Uuid} {e : Effect} (hid : ∀ w, some R = some w → w = id)
        (he : e.room = some id) : e.within R := within_of_room (by rw [he, hid R rfl])
    exact (Proc.handleRoomLeave_sat (I := fun _ => True) (some R)
      (Proc.leaveRoom_only (fun _ => within_of_benign) u (some R) true nowMs
        (fun id hid => hwanted hid rfl) (fun id item hid _ => hwanted hid rfl)
        fun _ id hid => hwanted hid rfl)).mono fun _ _ h => h.1
  · intro out g id hout _
    rw [Proc.publishOutcome_of_nil _ id hout]
    exact hout

/-! ### Creations and joins -/

/-- The room an effect needs to have been created or joined. -/
def Effect.needs : Effect → Option Uuid
  | .section _ (.join ..) | .store (.insertRoom ..) => none
  | e => e.room

/-- The room that a task has created the row of, or joined. -/
def Effect.gains : (e : Effect) → e.Resp → Option Uuid
  | .section id (.join ..), .ok _ | .store (.insertRoom id ..), .ok _ => some id
  | _, _ => none

/-- A task touches the rooms it has created or joined. -/
abbrev reaching : Automaton Effect Effect.Resp (Set Uuid) :=
  .gaining Effect.Answers Effect.needs Effect.gains

lemma reaching_benign {e : Effect} (he : e.benign = true) (g : Set Uuid) :
    reaching.allows g e ∧ ∀ r, reaching.expects e r → reaching.next g e r = g := by
  have hneeds : e.needs = none := by cases e <;> first | rfl | cases he
  refine ⟨fun id hid => ?_, fun r _ => ?_⟩
  · rw [hneeds] at hid
    cases hid
  have hgains : e.gains r = none := by cases e <;> first | rfl | cases he
  simp [reaching, Automaton.gaining, hgains]

/-- Nothing that only reads needs a room. -/
lemma Only.reaching {α : Type} {Q : α → Prop} {p : Proc α}
    (h : Only (fun e => e.benign = true) Q p) (g : Set Uuid) :
    p.Sat reaching (fun a g' => Q a ∧ g' = g) g :=
  h.sat (fun _ _ h => h) fun _ he => reaching_benign he g

namespace Proc

lemma join_reaching (code : String) (u : Uuid) (pubkey : PubKey) (name : String) (nowMs : ℤ)
    (g : Set Uuid) : (join code u pubkey name nowMs).Sat reaching (fun _ _ => True) g := by
  refine ⟨fun _ h => (by cases h), fun found _ => ?_⟩
  cases found with
  | none => exact trivial
  | some id =>
    refine ⟨fun _ h => (by cases h), fun registered _ => ?_⟩
    change Prog.Sat reaching _ (if !registered then _ else _) _
    split
    · exact trivial
    · refine ⟨fun _ h => (by cases h), fun joined _ => ?_⟩
      cases joined with
      | error e => exact trivial
      | ok out => exact ⟨fun _ h => .inl h, fun _ _ => trivial⟩

lemma create_reaching (title : String) (u : Uuid) (pubkey : PubKey) (migration : Bool) (nowMs : ℤ)
    (g : Set Uuid) :
    (create title u pubkey migration nowMs).Sat reaching (fun _ _ => True) g := by
  refine Prog.Sat.bind ((pickCode_only (fun _ h => h) _).reaching g) fun picked g' _ => ?_
  cases picked with
  | error e => exact trivial
  | ok code =>
    refine ⟨fun _ h => (by cases h), fun id _ => ⟨fun _ h => (by cases h), fun inserted _ => ?_⟩⟩
    cases inserted with
    | error e => exact trivial
    | ok _ =>
      -- from here on the task holds the id whose row it has inserted
      let row : StoreRequest := .insertRoom id code title u pubkey migration nowMs
      have hrow : id ∈ reaching.next (reaching.next g' .newId id) (.store row) (.ok ()) := .inl rfl
      have hkept {g : Set Uuid} {e : Effect} {r : e.Resp} (h : id ∈ g) :
          id ∈ reaching.next g e r := .inr h
      refine ⟨fun x h => (Option.some.inj h) ▸ hrow, fun added _ => ?_⟩
      cases added with
      | error e => exact trivial
      | ok _ =>
        refine ⟨fun _ h => (by cases h), fun wallMs _ => ?_⟩
        simp only [Prog.bind]
        split
        · exact trivial
        · refine ⟨fun x h => ?_, fun _ _ => ⟨fun x h => ?_, fun _ _ => ⟨fun x h => ?_,
            fun _ _ => trivial⟩⟩⟩
          · exact (Option.some.inj h) ▸ hkept (hkept hrow)
          · exact (Option.some.inj h) ▸ hkept (hkept (hkept hrow))
          · exact (Option.some.inj h) ▸ hkept (hkept (hkept (hkept hrow)))

end Proc

/-- The operation dispatches a creation or a join. -/
def Op.reaches : Op → Bool
  | .dispatch envelope _ _ => match envelope.body with
    | .roomCreate _ | .roomJoinRequest _ => true
    | _ => false
  | _ => false

/-- Creations and joins start with no room; other tasks are not watched. -/
def Op.reach (op : Op) : Set Uuid := if op.reaches then ∅ else Set.univ

lemma dispatchAuthed_reaching (env : Env) {envelope : Envelope} (u : Uuid) (pubkey : PubKey)
    (hkind : Op.reaches (.dispatch envelope u pubkey) = true) :
    (Proc.dispatchAuthed env envelope u pubkey).Sat reaching (fun out _ => out.events = []) ∅ := by
  refine Proc.dispatchAuthed_sat (fun _ _ h => h) (fun e he => reaching_benign he _)
    (fun _ h => h) (fun nowMs => ?_) ?_
  · unfold Proc.handleBody
    cases hb : envelope.body with
    | roomCreate p =>
      exact (Proc.handleRoomCreate_sat (I := fun _ => True) trivial p fun _ _ =>
        Proc.create_reaching _ _ _ _ _ _).mono fun _ _ h => h.1
    | roomJoinRequest p =>
      exact (Proc.handleRoomJoinRequest_sat (I := fun _ => True) trivial p fun _ _ =>
        Proc.join_reaching _ _ _ _ _ _).mono fun _ _ h => h.1
    | _ => simp [Op.reaches, hb] at hkind
  · intro out g id hout _
    rw [Proc.publishOutcome_of_nil _ id hout]
    exact hout

lemma program_reaching (env : Env) (op : Op) :
    (op.program env).Sat reaching (fun _ _ => True) op.reach := by
  by_cases hop : op.reaches = true
  · rw [Op.reach, if_pos hop]
    cases op with
    | dispatch envelope u pubkey =>
      exact (dispatchAuthed_reaching env u pubkey hop).bind fun _ _ _ => trivial
    | _ => cases hop
  · rw [Op.reach, if_neg hop]
    exact Prog.sat_gaining_univ _

/-- **What a creation or a join touches, it has created or joined.** -/
lemma gained_of_run (r : RunFrom env guard st₀ h p)
    {t : Task Effect.Resp Op (Option RoomDispatchOutcome)} (ht : t ∈ p.tasks)
    (hop : t.op.reaches = true) {i : ℕ} {d : (e : Effect) × e.Resp} {id : Uuid}
    (hi : t.done[i]? = some d) (hid : d.1.needs = some id) :
    ∃ j < i, ∃ d', t.done[j]? = some d' ∧ d'.1.gains d'.2 = some id := by
  have hadmits := (System.Run.tasks reaching Op.reach (fun _ _ _ => True) (program_reaching env)
    (fun d hd => handled_answers hd) r t ht).1
  rw [Op.reach, if_pos hop] at hadmits
  exact (Automaton.gained_of_admits hadmits hi hid).resolve_left (Set.notMem_empty id)

/-! ### The channels of creations and joins -/

/-- Steps of a creation: nothing is published, and the one new channel is the new room's. -/
def Effect.creates : Effect → Prop
  | .store _ | .insertRoom _ | .insertCode .. | .insertChannel _ => True
  | e => e.benign = true

/-- Steps of a join: its one section publishes nothing. -/
def Effect.joins : Effect → Prop
  | .section _ (.join ..) | .publish .. => True
  | e => e.benign = true

lemma creates_of_benign (e : Effect) (he : e.benign = true) : e.creates := by
  cases e <;> first | rfl | cases he

lemma joins_of_benign (e : Effect) (he : e.benign = true) : e.joins := by
  cases e <;> first | rfl | cases he

lemma dispatchAuthed_creates (env : Env) {envelope : Envelope} {p : Except String RoomCreatePayload}
    (u : Uuid) (pubkey : PubKey) (hkind : envelope.body = .roomCreate p) :
    Only Effect.creates (fun _ => True) (Proc.dispatchAuthed env envelope u pubkey) := by
  refine Only.mono (Q := fun out => out.events = []) ?_ (fun _ h => h) fun _ _ => trivial
  refine Proc.dispatchAuthed_sat (fun _ _ h => h)
    (fun e he => ⟨creates_of_benign e he, fun _ _ => rfl⟩) (fun _ h => h) (fun nowMs => ?_) ?_
  · simp only [Proc.handleBody, hkind]
    exact (Proc.handleRoomCreate_sat (I := fun _ => True) trivial p fun _ _ =>
      Proc.create_only creates_of_benign _ _ _ _ _ (fun _ _ => trivial) (fun _ => trivial)
        (fun _ _ _ => trivial) (fun _ _ => trivial) fun _ => trivial).mono fun _ _ h => h.1
  · intro out g id hout _
    rw [Proc.publishOutcome_of_nil _ id hout]
    exact hout

lemma join_joins (code : String) (u : Uuid) (pubkey : PubKey) (name : String) (nowMs : ℤ) :
    Only Effect.joins (fun _ => True) (Proc.join code u pubkey name nowMs) := by
  refine .next rfl fun found => ?_
  cases found with
  | none => exact trivial
  | some id =>
    refine .next rfl fun registered => ?_
    split
    · exact trivial
    · refine .next trivial fun joined => ?_
      cases joined with
      | error e => exact trivial
      | ok out => exact .next trivial fun _ => trivial

lemma dispatchAuthed_joins (env : Env) {envelope : Envelope}
    {p : Except String RoomJoinRequestPayload} (u : Uuid) (pubkey : PubKey)
    (hkind : envelope.body = .roomJoinRequest p) :
    Only Effect.joins (fun _ => True) (Proc.dispatchAuthed env envelope u pubkey) := by
  refine Only.mono (Q := fun out => out.events = []) ?_ (fun _ h => h) fun _ _ => trivial
  refine Proc.dispatchAuthed_sat (fun _ _ h => h)
    (fun e he => ⟨joins_of_benign e he, fun _ _ => rfl⟩) (fun _ h => h) (fun nowMs => ?_) ?_
  · simp only [Proc.handleBody, hkind]
    exact (Proc.handleRoomJoinRequest_sat (I := fun _ => True) trivial p fun _ _ =>
      join_joins _ _ _ _ _).mono fun _ _ h => h.1
  · intro out g id hout _
    rw [Proc.publishOutcome_of_nil _ id hout]
    exact hout

/-- A join reaches a channel by publishing only. -/
lemma handle_joins {inp : Input} {e : Effect} {r : e.Resp} (he : e.joins)
    (h : e.handle env inp st = some (r, st')) (id : Uuid) :
    st'.tx.get id = st.tx.get id ∨ ∃ item, e = .publish id item := by
  by_cases hb : e.benign = true
  · exact .inl (by rw [(handle_benign hb h).2.1])
  cases e with
  | «section» id' sec =>
    cases sec with
    | join u pubkey name nowMs =>
      obtain ⟨s, out, -, hout, -, rfl⟩ := handle_section h
      obtain ⟨o, -, rfl⟩ := Option.map_eq_some_iff.1 hout
      left
      rw [ServerState.apply_tx]
      simp [SectionOutcome.quiet, ServerState.itemsTo]
    | _ => exact absurd he hb
  | publish id' item =>
    cases h
    by_cases hid : id' = id
    · exact .inr ⟨item, by rw [hid]⟩
    · left
      rw [ServerState.publish_tx, if_neg hid]
      simp
  | _ => exact absurd he hb

/-- A creation reaches a channel by making it only. -/
lemma handle_creates {inp : Input} {e : Effect} {r : e.Resp} (he : e.creates)
    (h : e.handle env inp st = some (r, st')) (id : Uuid) :
    st'.tx.get id = st.tx.get id ∨ e = .insertChannel id := by
  by_cases hb : e.benign = true
  · exact .inl (by rw [(handle_benign hb h).2.1])
  cases e with
  | store | insertCode =>
    cases h
    exact .inl rfl
  | insertRoom s =>
    simp only [Effect.handle] at h
    split at h <;> cases h
    exact .inl rfl
  | insertChannel id' =>
    cases h
    by_cases hid : id = id'
    · exact .inr (by rw [hid])
    · exact .inl (by rw [ServerState.insertChannel_tx, if_neg hid])
  | _ => exact absurd he hb

/-! ### Isolation -/

/-- The step leaves every room but `R` alone. -/
def Step.Within (st₀ : ServerState) (R : Option Uuid) (d : Step) : Prop :=
  ∀ id, R ≠ some id → Untouched id d.before d.after ∧
    (CodesInv st₀ [] → SameCodes id d.before d.after)

/-- Wherever the task acts, it has created or joined the room before. -/
def ReachesOwn (t : Task Effect.Resp Op (Option RoomDispatchOutcome)) : Prop :=
  ∀ (i : ℕ) d id, t.done[i]? = some d → d.1.needs = some id →
    ∃ j < i, ∃ d', t.done[j]? = some d' ∧ d'.1.gains d'.2 = some id

/-- **Rooms are isolated.**  In any interleaving, from any state of the registry: the task of an
envelope that names room `R` touches no other room, unless its kind is `PRESENCE`, `ROOM_CREATE` or
`ROOM_JOIN_REQUEST`; a creation or a join acts on no room but one it has created or joined itself, a
creation sends on no channel, and a join only publishes.  Codes are isolated too, where the server
keeps them apart at the start. -/
theorem dispatch_isolated (env : Env) (st₀ : ServerState) {h : List Step} {p : Tasks}
    (r : RunFrom env anyStep st₀ h p) (envelope : Envelope) (u : Uuid) (pubkey : PubKey) :
    (∀ R, envelope.roomId = some R → crossesRooms envelope.body = false →
      ∀ d ∈ h, d.op = .dispatch envelope u pubkey → d.Within st₀ (some R)) ∧
    (∀ q, envelope.body = .roomCreate q →
      (∀ d ∈ h, d.op = .dispatch envelope u pubkey → d.Within st₀ d.effect.room ∧
        ∀ id, d.after.tx.get id = d.before.tx.get id ∨ d.effect = .insertChannel id) ∧
      ∀ t ∈ p.tasks, t.op = .dispatch envelope u pubkey → ReachesOwn t) ∧
    (∀ q, envelope.body = .roomJoinRequest q →
      (∀ d ∈ h, d.op = .dispatch envelope u pubkey → d.Within st₀ d.effect.room ∧
        ∀ id, d.after.tx.get id = d.before.tx.get id ∨ ∃ item, d.effect = .publish id item) ∧
      ∀ t ∈ p.tasks, t.op = .dispatch envelope u pubkey → ReachesOwn t) := by
  have hown : ∀ d ∈ h, d.Within st₀ d.effect.room := fun d hd id hid =>
    ⟨untouched_of_run r d hd id hid, fun h₀ => sameCodes_of_run r h₀ d hd id hid⟩
  have hreaches (hkind : Op.reaches (.dispatch envelope u pubkey) = true) :
      ∀ t ∈ p.tasks, t.op = .dispatch envelope u pubkey → ReachesOwn t :=
    fun t ht hop i d id hi hid => gained_of_run r ht (by rw [hop]; exact hkind) hi hid
  refine ⟨fun R hR hkind d hd hop id hid => hown d hd id fun h => hid ?_,
    fun q hkind =>
      ⟨fun d hd hop => ⟨hown d hd, fun id => ?_⟩, hreaches (by simp [Op.reaches, hkind])⟩,
    fun q hkind =>
      ⟨fun d hd hop => ⟨hown d hd, fun id => ?_⟩, hreaches (by simp [Op.reaches, hkind])⟩⟩
  · have hwithin : d.effect.within R := by
      refine RunFrom.footprint r (c := (· = .dispatch envelope u pubkey)) ?_ d hd hop
      rintro _ rfl
      exact (dispatchAuthed_within env u pubkey hR hkind).bind fun _ _ => trivial
    rw [hwithin id h]
  · refine handle_creates (RunFrom.footprint r (c := (· = .dispatch envelope u pubkey)) ?_ d hd hop)
      (RunFrom.handled r d hd) id
    rintro _ rfl
    exact (dispatchAuthed_creates env u pubkey hkind).bind fun _ _ => trivial
  · refine handle_joins (RunFrom.footprint r (c := (· = .dispatch envelope u pubkey)) ?_ d hd hop)
      (RunFrom.handled r d hd) id
    rintro _ rfl
    exact (dispatchAuthed_joins env u pubkey hkind).bind fun _ _ => trivial

/-! ### The host of two rooms clears one canvas -/

namespace TwoRooms

/-- `DRAW_CLEAR` for room `10`. -/
def clear : Envelope where
  roomId := some 10
  sender := none
  body := .strokeClear
  serializedLen := 0

def moves : List (Move Op Input) :=
  .spawn (.create "left" 1 (PubKey.filled 1) true 0) :: steps 0 10 (.plain [] 10 "ABCDEF") ++
  .spawn (.create "right" 1 (PubKey.filled 1) true 0) :: steps 1 10 (.plain [10] 11 "GHJKLM") ++
  .spawn (.dispatch clear 1 (PubKey.filled 1)) :: steps 2 9 (.plain [10, 11] 0 "")

lemma played_moves : (played Env.plain moves).isSome = true := by decide

end TwoRooms

/-- The clear goes out on the channel of room `10`; room `11`, its channel, its rows and its code
stay as they were. -/
theorem dispatch_isolated_clear : ∃ h p, Run Env.plain anyStep h p ∧
    (p.state.tx.get 10).map List.length = some 1 ∧ p.state.tx.get 11 = some [] ∧
    ∀ d ∈ h, d.op = .dispatch TwoRooms.clear 1 (PubKey.filled 1) →
      Untouched 11 d.before d.after ∧ SameCodes 11 d.before d.after := by
  have r : Run Env.plain anyStep _ _ := run_of_played TwoRooms.played_moves fun _ _ => trivial
  refine ⟨_, _, r, by decide, by decide, fun d hd hop => ?_⟩
  obtain ⟨huntouched, hcodes⟩ :=
    (dispatch_isolated _ _ r TwoRooms.clear 1 (PubKey.filled 1)).1 10 rfl
    rfl d hd hop 11 (by decide)
  exact ⟨huntouched, hcodes codesInv_empty⟩

end Locast.Server
