import Locast.Rooms.Durable
import Locast.Server.Closing

/-!
# Room codes

No two rooms share a code: a room gets its handle only after its row went into the database, and the
database refuses a code that any row has.  So clearing the code of one room leaves the others'
alone.
-/

namespace Locast.Server

open Locast.Lib Locast.Protocol Locast.Rooms

/-! ### Booked rows -/

/-- How far a task is with the room it creates: its row is in the database, or its handle is in the
registry and its code is not. -/
inductive Booking where
  | none
  | row (id : Uuid) (code : String)
  | room (id : Uuid) (code : String)

/-- A task remembers the room it creates until it has inserted the code. -/
def booking : Automaton Effect Effect.Resp Booking where
  allows g e := match e with
    | .insertRoom s => IsNew s ∧ g = .row s.id s.code
    | .insertCode code id => g = .room id code
    | _ => True
  expects := Effect.Answers
  next g e r := match e, r with
    | .store (.insertRoom id code ..), .ok _ => .row id code
    | .insertRoom s, _ => .room s.id s.code
    | .insertCode .., _ => .none
    | _, _ => g

/-- Effects that insert a room or a code. -/
def Effect.installs : Effect → Bool
  | .insertRoom _ | .insertCode .. => true
  | _ => false

/-- A program that inserts no room and no code. -/
lemma Only.installsNone {α : Type} {Q : α → Prop} {p : Proc α}
    (h : Only (fun e => e.installs = false) Q p) (g : Booking) :
    p.Sat booking (fun _ _ => True) g := by
  induction p generalizing g with
  | ret a => exact trivial
  | op e k ih =>
    refine ⟨?_, fun r hr => ih r (h.2 r hr) _⟩
    have he : e.installs = false := h.1
    cases e <;> first | exact trivial | cases he

lemma installs_of_benign {e : Effect} (he : e.benign = true) : e.installs = false := by
  cases e <;> first | rfl | cases he

lemma installs_of_mild {e : Effect} (he : e.mild) : e.installs = false := by
  cases e <;> first | rfl | exact he.elim

/-- A mild program inserts no room. -/
lemma Only.mildInstallsNone {α : Type} {Q : α → Prop} {p : Proc α} (h : Only Effect.mild Q p)
    (g : Booking) : p.Sat booking (fun _ _ => True) g :=
  Only.installsNone (h.mono (fun _ => installs_of_mild) fun _ h => h) g

namespace Proc

lemma create_booking (title : String) (u : Uuid) (pubkey : PubKey) (migration : Bool) (nowMs : ℤ)
    (g : Booking) :
    (create title u pubkey migration nowMs).Sat booking (fun _ _ => True) g := by
  refine Prog.Sat.bind (Only.installsNone (pickCode_only (fun _ h => installs_of_benign h) _) g)
    fun picked g' _ => ?_
  cases picked with
  | error e => exact trivial
  | ok code =>
    refine ⟨trivial, fun id _ => ⟨trivial, fun inserted _ => ?_⟩⟩
    cases inserted with
    | error e => exact trivial
    | ok _ =>
      refine ⟨trivial, fun added _ => ?_⟩
      cases added with
      | error e => exact trivial
      | ok _ =>
        refine ⟨trivial, fun wallMs _ => ?_⟩
        change Prog.Sat booking _ _ (.row id code)
        simp only [Prog.bind]
        split
        · exact trivial
        · exact ⟨⟨⟨id, code, title, u, pubkey, migration, nowMs, wallMs, rfl⟩, rfl⟩,
            fun _ _ => ⟨rfl, fun _ _ => ⟨trivial, fun _ _ => trivial⟩⟩⟩

lemma leaveRoom_booking (u : Uuid) (wanted : Option Uuid) (intentional : Bool) (nowMs : ℤ)
    (g : Booking) :
    (leaveRoom u wanted intentional nowMs).Sat booking (fun _ _ => True) g :=
  Only.installsNone (leaveRoom_only (fun _ => installs_of_benign) u wanted intentional nowMs
    (fun _ _ => rfl) (fun _ _ _ _ => rfl) fun _ _ _ => rfl) g

lemma onConnectionLost_booking (u : Uuid) (nowMs : ℤ) (g : Booking) :
    (onConnectionLost u nowMs).Sat booking (fun _ _ => True) g := by
  refine Only.installsNone (Q := fun _ => True) (.next rfl fun ids => ?_) g
  refine .bind (roomsWithMember_only (fun _ => installs_of_benign) u ids) fun mine _ => ?_
  split
  · exact trivial
  · exact .bind (only_collect _ fun id _ => connectionLostInRoom_only (fun _ => installs_of_benign)
      u nowMs id rfl (fun _ _ => rfl) (fun _ => rfl) rfl rfl) fun _ _ => trivial

lemma tickGrace_booking (nowMs : ℤ) (g : Booking) :
    (tickGrace nowMs).Sat booking (fun _ _ => True) g := by
  refine Only.installsNone (Q := fun _ => True) (.next rfl fun ids => ?_) g
  have hsweep : Only (fun e => e.installs = false) (fun _ => True) (sweep (.grace nowMs) ids) :=
    only_collect _ fun _ _ => .next rfl fun _ => trivial
  refine .bind hsweep fun replies _ => ?_
  refine .bind (only_forEach _ fun r _ => .next rfl fun _ => trivial) fun _ _ => ?_
  refine .bind (only_forEach _ fun id _ => .next rfl fun _ => ?_) fun _ _ => trivial
  exact removeRoom_only (fun _ => installs_of_benign) id fun _ => rfl

end Proc

/-- **Every program inserts only the room whose row it has inserted, and its code after it.** -/
theorem program_booking (env : Env) (op : Op) :
    (op.program env).Sat booking (fun _ _ => True) .none := by
  cases op with
  | create title u pubkey migration nowMs =>
    exact (Proc.create_booking title u pubkey migration nowMs _).bind fun _ _ _ => trivial
  | join code u pubkey name nowMs =>
    exact (Proc.join_mild code u pubkey name nowMs).mildInstallsNone _ |>.bind fun _ _ _ => trivial
  | leaveRoom u roomId intentional nowMs =>
    exact (Proc.leaveRoom_booking u roomId intentional nowMs _).bind fun _ _ _ => trivial
  | onConnectionLost u nowMs =>
    exact (Proc.onConnectionLost_booking u nowMs _).bind fun _ _ _ => trivial
  | rejoin u pubkey nowMs =>
    exact (Proc.rejoin_mild u pubkey nowMs).mildInstallsNone _ |>.bind fun _ _ _ => trivial
  | touch u nowMs => exact (Proc.touch_mild u nowMs).mildInstallsNone _ |>.bind fun _ _ _ => trivial
  | tickGrace nowMs => exact (Proc.tickGrace_booking nowMs _).bind fun _ _ _ => trivial
  | tickPresenceTimeout nowMs =>
    exact (Proc.tickPresenceTimeout_mild nowMs).mildInstallsNone _ |>.bind fun _ _ _ => trivial
  | tickStaleParticipants nowMs =>
    exact (Proc.tickStaleParticipants_mild env.cfg nowMs).mildInstallsNone _ |>.bind fun _ _ _ =>
      trivial
  | dispatch envelope u pubkey =>
    refine Prog.Sat.bind (Proc.dispatchAuthed_idle (I := fun _ => True) trivial (fun _ _ h => h)
      (fun e he => ?_) (fun title migration nowMs =>
        Proc.create_booking title u pubkey migration nowMs _)
      (fun code name nowMs => (Proc.join_mild code u pubkey name nowMs).mildInstallsNone _)
      (fun roomId nowMs => Proc.leaveRoom_booking u roomId true nowMs _)
      (fun nowMs => (Proc.touch_mild u nowMs).mildInstallsNone _)) fun _ _ _ => trivial
    cases he with
    | benign he => cases e <;> first | exact ⟨trivial, fun _ _ => rfl⟩ | cases he
    | _ => exact ⟨trivial, fun _ _ => rfl⟩

/-! ### The invariant -/

/-- **The codes of rooms and rows.** -/
structure CodesInv (st : ServerState) (gs : List Booking) : Prop where
  unique : ∀ id id' c, st.db.codeOf id = some c → st.db.codeOf id' = some c → id = id'
  booked : ∀ id c, .row id c ∈ gs → st.db.codeOf id = some c
  inserted : ∀ id c, .room id c ∈ gs → ∃ s, st.heap.get id = some s ∧ s.code = c
  room : ∀ id s, st.heap.get id = some s → st.db.codeOf id = some s.code
  code : ∀ c id, st.byCode.get c = some id → ∃ s, st.heap.get id = some s ∧ s.code = c

variable {st : ServerState} {gs : List Booking} {i : ℕ} {g : Booking}

/-- Two rooms with one code are one room. -/
lemma CodesInv.room_unique (hI : CodesInv st gs) {id id' : Uuid} {s s' : RoomState}
    (hs : st.heap.get id = some s) (hs' : st.heap.get id' = some s') (hc : s.code = s'.code) :
    id = id' :=
  hI.unique id id' s.code (hI.room id s hs) (by rw [hc]; exact hI.room id' s' hs')

/-- **Removing a room takes no code from another room.** -/
lemma CodesInv.remove_byCode (hI : CodesInv st gs) {id : Uuid} (hid : (st.heap.get id).isSome)
    (map : RegistryMap) {c : String} {id' : Uuid} (hne : id' ≠ id)
    (hc : st.byCode.get c = some id') : (st.remove map id).byCode.get c = some id' := by
  obtain ⟨s, hs⟩ := Option.isSome_iff_exists.1 hid
  obtain ⟨s', hs', rfl⟩ := hI.code c id' hc
  rw [ServerState.remove_byCode _ _ _ hs, if_neg]
  · exact hc
  · rintro ⟨-, hcode⟩
    exact hne (hI.room_unique hs' hs hcode)

/-- One task's memory becomes one that the state bears out. -/
lemma CodesInv.set (hI : CodesInv st gs) {g' : Booking}
    (hrow : ∀ id c, g' = .row id c → st.db.codeOf id = some c)
    (hroom : ∀ id c, g' = .room id c → ∃ s, st.heap.get id = some s ∧ s.code = c) :
    CodesInv st (gs.set i g') := by
  refine { hI with booked := fun id c h => ?_, inserted := fun id c h => ?_ }
  · rcases List.mem_or_eq_of_mem_set h with h | h
    · exact hI.booked id c h
    · exact hrow id c h.symm
  · rcases List.mem_or_eq_of_mem_set h with h | h
    · exact hI.inserted id c h
    · exact hroom id c h.symm

lemma CodesInv.section {env : Env} {inp : Input} {id : Uuid} {sec : Section} {s : RoomState}
    {out : SectionOutcome sec.Reply} (hI : CodesInv st gs) (hs : st.heap.get id = some s)
    (hrun : sec.run ⟨env.cfg, env.crates, inp.clockMs⟩ ⟨st.db, inp.faults⟩ s = some out) :
    CodesInv (st.apply id out) gs := by
  have hid : out.state.id = id := (Section.run_framed hrun).id.trans (Heap.get_id hs)
  have hcode := Section.run_code hrun
  have hdb (id' : Uuid) : (st.apply id out).db.codeOf id' = st.db.codeOf id' := by
    rw [ServerState.apply_db]
    exact Section.run_codeOf hrun id'
  have hkept {id' : Uuid} {c : String} (h : ∃ t, st.heap.get id' = some t ∧ t.code = c) :
      ∃ t, (st.apply id out).heap.get id' = some t ∧ t.code = c := by
    obtain ⟨t, ht, hc⟩ := h
    rw [ServerState.apply_heap, Heap.get_put, hid]
    split
    · rename_i hid'
      rw [hid', hs] at ht
      cases ht
      exact ⟨out.state, rfl, hcode.trans hc⟩
    · exact ⟨t, ht, hc⟩
  refine ⟨fun id₁ id₂ c => ?_, fun id' c h => ?_, fun id' c h => hkept (hI.inserted id' c h),
    fun id' s' h => ?_, fun c id' h => hkept (hI.code c id' (by simpa using h))⟩
  · rw [hdb, hdb]
    exact hI.unique id₁ id₂ c
  · rw [hdb]
    exact hI.booked id' c h
  · rw [hdb]
    rw [ServerState.apply_heap, Heap.get_put, hid] at h
    split at h
    · rename_i hid'
      cases h
      rw [hid', hcode]
      exact hI.room id s hs
    · exact hI.room id' s' h

/-- A booked room gets its handle. -/
lemma CodesInv.insertRoom {s : RoomState} (hI : CodesInv st gs)
    (hi : gs[i]? = some (.row s.id s.code)) (hfree : st.heap.get s.id = none) :
    CodesInv (st.insertRoom s) (gs.set i (.room s.id s.code)) := by
  have hrow : st.db.codeOf s.id = some s.code := hI.booked s.id s.code (List.mem_of_getElem? hi)
  have hkept {id : Uuid} {c : String} (h : ∃ t, st.heap.get id = some t ∧ t.code = c) :
      ∃ t, (st.insertRoom s).heap.get id = some t ∧ t.code = c := by
    obtain ⟨t, ht, hc⟩ := h
    refine ⟨t, ?_, hc⟩
    rw [ServerState.insertRoom_heap, Heap.get_put, if_neg, ht]
    rintro rfl
    rw [hfree] at ht
    cases ht
  have hI' : CodesInv (st.insertRoom s) gs := by
    refine ⟨hI.unique, hI.booked, fun id c h => hkept (hI.inserted id c h), fun id t ht => ?_,
      fun c id h => hkept (hI.code c id h)⟩
    rw [ServerState.insertRoom_heap, Heap.get_put] at ht
    split at ht
    · rename_i hid
      cases ht
      rw [hid]
      exact hrow
    · exact hI.room id t ht
  refine hI'.set (fun id c h => (by cases h)) fun id c h => ?_
  cases h
  exact ⟨s, by simp, rfl⟩

/-- A room gets its code. -/
lemma CodesInv.insertCode {id : Uuid} {code : String} (hI : CodesInv st gs)
    (hi : gs[i]? = some (.room id code)) :
    CodesInv (st.insertCode code id) (gs.set i .none) := by
  have hI' : CodesInv (st.insertCode code id) gs := by
    refine { hI with code := fun c id' h => ?_ }
    rw [ServerState.insertCode_byCode] at h
    split at h
    · rename_i hc
      cases h
      rw [hc]
      exact hI.inserted id code (List.mem_of_getElem? hi)
    · exact hI.code c id' h
  exact hI'.set (fun _ _ h => by cases h) fun _ _ h => by cases h

lemma CodesInv.remove {id : Uuid} {s : RoomState} (hI : CodesInv st gs)
    (hs : st.heap.get id = some s) (map : RegistryMap) : CodesInv (st.remove map id) gs := by
  refine ⟨?_, ?_, ?_, ?_, fun c id' h => ?_⟩
  · rw [ServerState.remove_db]
    exact hI.unique
  · rw [ServerState.remove_db]
    exact hI.booked
  · rw [ServerState.remove_heap]
    exact hI.inserted
  · rw [ServerState.remove_db, ServerState.remove_heap]
    exact hI.room
  · rw [ServerState.remove_byCode _ _ _ hs] at h
    split at h
    · cases h
    · rw [ServerState.remove_heap]
      exact hI.code c id' h

/-- A removal that finds no room behind the handle. -/
lemma CodesInv.remove_none {id : Uuid} (hI : CodesInv st gs) (hs : st.heap.get id = none)
    (map : RegistryMap) : CodesInv (st.remove map id) gs := by
  have hcode : (st.remove map id).byCode = st.byCode := by
    cases map <;> simp [ServerState.remove, hs]
  refine ⟨?_, ?_, ?_, ?_, ?_⟩
  · rw [ServerState.remove_db]
    exact hI.unique
  · rw [ServerState.remove_db]
    exact hI.booked
  · rw [ServerState.remove_heap]
    exact hI.inserted
  · rw [ServerState.remove_db, ServerState.remove_heap]
    exact hI.room
  · rw [hcode, ServerState.remove_heap]
    exact hI.code

/-- A step that leaves rooms, codes and rows as they were. -/
lemma CodesInv.congr {st' : ServerState} (hI : CodesInv st gs) (hheap : st'.heap = st.heap)
    (hcode : st'.byCode = st.byCode) (hdb : ∀ id, st'.db.codeOf id = st.db.codeOf id) :
    CodesInv st' gs := by
  obtain ⟨h₁, h₂, h₃, h₄, h₅⟩ := hI
  constructor
  · simpa only [hdb] using h₁
  · simpa only [hdb] using h₂
  · simpa only [hheap] using h₃
  · simpa only [hdb, hheap] using h₄
  · simpa only [hcode, hheap] using h₅

/-- A row is inserted. -/
lemma CodesInv.insertRow {id : Uuid} {code : String} {db' : Db} (hI : CodesInv st gs)
    (hnew : ∀ id', st.db.codeOf id' ≠ some code)
    (hdb : ∀ id', db'.codeOf id' = if id' = id then some code else st.db.codeOf id')
    (hrooms : st.db.codeOf id = none) :
    CodesInv { st with db := db' } (gs.set i (.row id code)) := by
  have hkeep {id' : Uuid} {c : String} (h : st.db.codeOf id' = some c) :
      db'.codeOf id' = some c := by
    rw [hdb, if_neg, h]
    rintro rfl
    rw [hrooms] at h
    cases h
  have hI' : CodesInv { st with db := db' } gs := by
    refine ⟨fun id₁ id₂ c h₁ h₂ => ?_, fun id' c h => hkeep (hI.booked id' c h), hI.inserted,
      fun id' s hs => hkeep (hI.room id' s hs), hI.code⟩
    simp only [hdb] at h₁ h₂
    split at h₁ <;> split at h₂
    · rename_i h h'
      rw [h, h']
    · cases h₁
      exact absurd h₂ (hnew id₂)
    · cases h₂
      exact absurd h₁ (hnew id₁)
    · exact hI.unique id₁ id₂ c h₁ h₂
  refine hI'.set (fun id' c h => ?_) fun _ _ h => by cases h
  cases h
  change db'.codeOf id = some code
  rw [hdb, if_pos rfl]

/-- **Every step keeps the codes apart.** -/
lemma CodesInv.step {env : Env} {d : Step} (hI : CodesInv d.before gs) (hi : gs[i]? = some g)
    (ha : booking.allows g d.effect) (hd : (system env).Handled d) :
    CodesInv d.after (gs.set i (booking.next g d.effect d.resp)) := by
  obtain ⟨op, e, inp, r, before, after⟩ := d
  have h : Effect.handle env e inp before = some (r, after) := hd
  have hkept {st' : ServerState} (hI : CodesInv st' gs) : CodesInv st' (gs.set i g) := by
    obtain ⟨hlt, rfl⟩ := List.getElem?_eq_some_iff.1 hi
    rw [List.set_getElem_self]
    exact hI
  cases e with
  | «section» id sec =>
    obtain ⟨s, out, hs, hrun, rfl, rfl⟩ := handle_section (r := r) h
    exact hkept (hI.section hs hrun)
  | insertRoom s =>
    simp only [Effect.handle] at h
    split at h
    · cases h
    · rename_i hfree
      cases h
      obtain ⟨-, rfl⟩ := ha
      exact hI.insertRoom hi (by simpa using hfree)
  | insertCode code id =>
    cases h
    obtain rfl : g = .room id code := ha
    exact hI.insertCode hi
  | insertChannel id =>
    cases h
    exact hkept (hI.congr rfl rfl fun _ => rfl)
  | publish id item =>
    cases h
    exact hkept (hI.congr (by simp) (by simp) (by simp))
  | putManifest id c =>
    cases h
    exact hkept (hI.congr rfl rfl fun _ => rfl)
  | publishManifest id c =>
    cases h
    exact hkept (hI.congr (by simp) (by simp) (by simp))
  | remove map id =>
    cases h
    cases hs : before.heap.get id with
    | none => exact hkept (hI.remove_none hs map)
    | some s => exact hkept (hI.remove hs map)
  | store request =>
    cases h
    change CodesInv { before with db := (Store.exec ⟨before.db, inp.faults⟩ request).2.db }
      (gs.set i (booking.next g (.store request) (Store.exec ⟨before.db, inp.faults⟩ request).1))
    rcases Store.exec_spec ⟨before.db, inp.faults⟩ request with ⟨⟨e, he⟩, hdb⟩ | ⟨hok, hdb⟩
    · have hnext : booking.next g (.store request) (Store.exec ⟨before.db, inp.faults⟩ request).1 =
          g := by
        rw [he]
        cases request <;> rfl
      rw [hnext]
      exact hkept (hI.congr rfl rfl fun id => by rw [hdb])
    · cases request with
      | insertRoom id code title u pubkey migration createdMs =>
        have hnext (answer : Except String Unit) (ha : answer = .ok ()) :
            booking.next g (.store (.insertRoom id code title u pubkey migration createdMs))
              answer = .row id code := by
          rw [ha]
          rfl
        obtain ⟨hnew, hfree, hcodes⟩ := Db.exec_insertRoom hdb
        rw [hnext _ hok]
        exact hI.insertRow hnew hcodes hfree
      | _ => exact hkept (hI.congr rfl rfl fun id => Db.exec_codeOf hdb rfl id)
  | _ =>
    obtain ⟨hheap, -, -, hdb, hcode, -⟩ := handle_benign rfl h
    exact hkept (hI.congr hheap hcode (by simp [hdb]))

variable {env : Env} {guard : List Step → Step → Prop} {h : List Step} {p : Tasks}

/-- **The codes are kept apart in every run** from a server that keeps them apart. -/
theorem codes_of_runFrom {st₀ : ServerState} (r : RunFrom env guard st₀ h p)
    (h₀ : CodesInv st₀ []) :
    CodesInv p.state (p.tasks.map (System.Task.ghost booking fun _ => .none)) := by
  refine (System.Run.invariant booking (fun _ => .none) (fun _ _ => True)
    (fun _ st gs => CodesInv st gs) (program_booking env) h₀ (fun _ st gs _ hI => ?_)
    (fun _ _ d _ hd => handled_answers hd) (fun _ gs i g d hI hi ha hd _ => hI.step hi ha hd) r).1
  exact { hI with
    booked := fun id c hc => hI.booked id c (by simpa using hc)
    inserted := fun id c hc => hI.inserted id c (by simpa using hc) }

lemma codesInv_empty : CodesInv .empty [] := by
  constructor
  all_goals simp [ServerState.empty, Db.codeOf, Db.empty]

theorem codes_of_run (r : Run env guard h p) :
    CodesInv p.state (p.tasks.map (System.Task.ghost booking fun _ => .none)) :=
  codes_of_runFrom r codesInv_empty

end Locast.Server
