import Locast.Server.StoreFailure

/-!
# Signs of life

`touch` dates one record of a user and stops: the first one a scan of the rooms meets, whatever its
status. So a sign of life covers every seat of its user exactly when no other record of the user can
come first.
-/

namespace Locast.Server

open Locast.Lib Locast.Protocol Locast.Rooms

/-! ### Ticks -/

/-- A room's section of one of the two ticks. -/
inductive Tick where
  | presenceTimeout (nowMs : ℤ)
  | stale (nowMs : ℤ)

/-- The users a tick finds silent, and the room it leaves. -/
def Tick.run (cfg : RoomRegistryConfig) (s : RoomState) : Tick → List Uuid × RoomState
  | presenceTimeout nowMs => presenceTimeoutLocked cfg s nowMs
  | stale nowMs => staleLocked cfg s nowMs

/-- A record dated `seenMs` is not old enough for the tick. -/
def Tick.Spares (cfg : RoomRegistryConfig) (seenMs : ℤ) : Tick → Prop
  | presenceTimeout nowMs => saturatingSub nowMs seenMs < cfg.participantDisconnectAfterMs
  | stale nowMs => saturatingSub nowMs seenMs < cfg.participantStaleAfterMs

/-- The users that any of some ticks finds silent, one tick after the other. -/
def silenced (cfg : RoomRegistryConfig) : RoomState → List Tick → List Uuid
  | _, [] => []
  | s, tick :: rest => (tick.run cfg s).1 ++ silenced cfg (tick.run cfg s).2 rest

/-- A viewer's record that is not `Left`. -/
def Seated (p : ParticipantRecord) : Prop := p.isHost = false ∧ p.status ≠ .left

/-- The record is dated `t`, and its user is not taken for gone. -/
def FreshAt (t : ℤ) (p : ParticipantRecord) : Prop := p.lastSeenMs = t ∧ p.status ≠ .disconnected

instance (p : ParticipantRecord) : Decidable (Seated p) := inferInstanceAs (Decidable (_ ∧ _))

instance (t : ℤ) (p : ParticipantRecord) : Decidable (FreshAt t p) :=
  inferInstanceAs (Decidable (_ ∧ _))

section Ticks

variable {cfg : RoomRegistryConfig} {s : RoomState} {u : Uuid} {p : ParticipantRecord} {t : ℤ}

/-- A tick that spares a fresh record does not see its user and leaves the record. -/
lemma Tick.run_spares (hk : s.Keyed) (hp : s.record u = some p) (hfresh : FreshAt t p)
    {tick : Tick} (hspares : tick.Spares cfg t) :
    u ∉ (tick.run cfg s).1 ∧ (tick.run cfg s).2.record u = some p ∧ (tick.run cfg s).2.Keyed := by
  cases tick with
  | presenceTimeout nowMs =>
    have hage : ¬p.timesOut cfg nowMs := by
      have : ¬cfg.participantDisconnectAfterMs ≤ saturatingSub nowMs p.lastSeenMs := by
        rw [hfresh.1]
        exact not_le.2 hspares
      simp [ParticipantRecord.timesOut, this]
    refine ⟨fun hu => ?_, ?_, (@presenceTimeout_refines cfg _ hk nowMs).keyed⟩
    · simp only [run, presenceTimeoutLocked] at hu
      split at hu
      · cases hu
      · obtain ⟨q, hq, ht⟩ := (RoomState.mem_users hk).1 hu
        rw [hp] at hq
        obtain rfl := Option.some.inj hq
        exact hage ht
    · simp only [run, presenceTimeoutLocked]
      split
      · exact hp
      · have hf (a : ParticipantRecord) : (if a.timesOut cfg nowMs then
            { a with status := .disconnected } else a).userId = a.userId := by split <;> rfl
        rw [RoomState.record_eq, recordIn_map hf, ← RoomState.record_eq, hp, Option.map_some,
          if_neg hage]
  | stale nowMs =>
    have hage : p.isStale cfg nowMs = false := by
      have : ¬cfg.participantStaleAfterMs ≤ saturatingSub nowMs p.lastSeenMs := by
        rw [hfresh.1]
        exact not_le.2 hspares
      simp [ParticipantRecord.isStale, this]
    refine ⟨fun hu => ?_, ?_, (@stale_refines cfg _ hk nowMs).keyed⟩
    · simp only [run, staleLocked] at hu
      split at hu
      · cases hu
      split at hu
      · cases hu
      rw [List.filter_filter, List.map_reverse, List.mem_reverse] at hu
      obtain ⟨q, hq, ht⟩ := (RoomState.mem_users hk).1 hu
      rw [hp] at hq
      obtain rfl := Option.some.inj hq
      simp [hage] at ht
    · simp only [run, staleLocked]
      split
      · exact hp
      split
      · exact hp
      simp only [List.filter_filter]
      rw [RoomState.record_eq, recordIn_filter hk, ← RoomState.record_eq, hp, Option.filter_some,
        if_pos (by simp [hage])]

/-- **Ticks within their thresholds spare a fresh record.** -/
lemma not_mem_silenced {ticks : List Tick} (hk : s.Keyed) (hp : s.record u = some p)
    (hfresh : FreshAt t p) (hspares : ∀ tick ∈ ticks, tick.Spares cfg t) :
    u ∉ silenced cfg s ticks := by
  induction ticks generalizing s with
  | nil => exact List.not_mem_nil
  | cons tick rest ih =>
    obtain ⟨hnot, hp', hk'⟩ :=
      Tick.run_spares hk hp hfresh (hspares tick List.mem_cons_self)
    rw [silenced, List.mem_append, not_or]
    exact ⟨hnot, ih hk' hp' fun tick' h => hspares tick' (List.mem_cons_of_mem _ h)⟩

end Ticks

/-! ### What a sign of life should do -/

/-- In one room: a seat of `u` that is not in an ended room is fresh at `t`, and no ticks within
their thresholds find it silent; a record that is `Left`, and every other user's, is as it was. -/
structure CoveredIn (cfg : RoomRegistryConfig) (s s' : RoomState) (u : Uuid) (t : ℤ) : Prop where
  seat : ∀ p, s.record u = some p → Seated p → s.state ≠ .ended →
    ∃ p', s'.record u = some p' ∧ FreshAt t p'
  spared : ∀ p, s.record u = some p → Seated p → s.state ≠ .ended →
    ∀ ticks : List Tick, (∀ tick ∈ ticks, tick.Spares cfg t) → u ∉ silenced cfg s' ticks
  left : ∀ p, s.record u = some p → p.status = .left → s'.record u = some p
  others : ∀ v, v ≠ u → s'.record v = s.record v

/-- In every registered room. -/
def Covered (cfg : RoomRegistryConfig) (st st' : ServerState) (u : Uuid) (t : ℤ) : Prop :=
  ∀ id ∈ st.byId, ∀ s, st.heap.get id = some s →
    ∃ s', st'.heap.get id = some s' ∧ CoveredIn cfg s s' u t

/-- **No other record can come first**: a `Left` record of `u` in a registered room is dated `t`
already, and so is, and is not disconnected, a seat of `u` in any room that is not ended but the
only one that has a record of `u`. -/
def OneSeat (st : ServerState) (u : Uuid) (t : ℤ) : Prop :=
  ∀ id ∈ st.byId, ∀ s, st.heap.get id = some s → ∀ p, s.record u = some p →
    (p.status = .left → p.lastSeenMs = t) ∧
    ∀ id' ∈ st.byId, id' ≠ id → ∀ s', st.heap.get id' = some s' → ∀ p', s'.record u = some p' →
      Seated p' → s'.state ≠ .ended → FreshAt t p'

/-! ### What it does -/

section Touch

variable {env : Env} {label : Op} {st st' : ServerState} {u : Uuid} {t : ℤ} {s : RoomState}

lemma record_touchLocked (s : RoomState) (u v : Uuid) (t : ℤ) :
    (touchLocked s u t).2.record v =
      if v = u then (s.record u).map (·.touched t) else s.record v :=
  recordIn_updateFirst (f := (·.touched t)) (fun _ => rfl) u v

/-- The room after its record of `u` was dated. -/
lemma coveredIn_touch (hk : s.Keyed) {p : ParticipantRecord} (hp : s.record u = some p)
    (hleft : p.status = .left → p.lastSeenMs = t) (cfg : RoomRegistryConfig) :
    CoveredIn cfg s (touchLocked s u t).2 u t := by
  have hrecord : (touchLocked s u t).2.record u = some (p.touched t) := by
    rw [record_touchLocked, if_pos rfl, hp, Option.map_some]
  have hfresh (hseat : Seated p) : FreshAt t (p.touched t) := by
    obtain ⟨hhost, -⟩ := hseat
    by_cases hd : p.status = .disconnected
    · simp [FreshAt, ParticipantRecord.touched, hhost, hd]
    · simp [FreshAt, ParticipantRecord.touched, hhost, hd]
  have hkeyed : (touchLocked s u t).2.Keyed := (@touch_refines cfg _ hk u t).keyed
  refine ⟨fun q hq hseat _ => ?_, fun q hq hseat _ ticks hspares => ?_, fun q hq hl => ?_,
    fun v hv => ?_⟩
  · obtain rfl := Option.some.inj (hp.symm.trans hq)
    exact ⟨_, hrecord, hfresh hseat⟩
  · obtain rfl := Option.some.inj (hp.symm.trans hq)
    exact not_mem_silenced hkeyed hrecord (hfresh hseat) hspares
  · obtain rfl := Option.some.inj (hp.symm.trans hq)
    rw [hrecord]
    have hdate := hleft hl
    obtain ⟨userId, pubkey, displayName, joinedMs, status, lastSeenMs, isHost, capSet⟩ := p
    obtain rfl : status = .left := hl
    obtain rfl : lastSeenMs = t := hdate
    simp [ParticipantRecord.touched]
  · rw [record_touchLocked, if_neg hv]

/-- A room that is left as it is. -/
lemma coveredIn_same (hk : s.Keyed)
    (hfresh : ∀ p, s.record u = some p → Seated p → s.state ≠ .ended → FreshAt t p)
    (cfg : RoomRegistryConfig) : CoveredIn cfg s s u t :=
  ⟨fun p hp hseat hopen => ⟨p, hp, hfresh p hp hseat hopen⟩,
    fun p hp hseat hopen _ hspares =>
      not_mem_silenced hk hp (hfresh p hp hseat hopen) hspares,
    fun _ hp _ => hp, fun _ _ => rfl⟩

/-- **The scan**: it dates the record of `u` in one room that has one, or there is none. -/
def Dates (st st' : ServerState) (u : Uuid) (t : ℤ) (ids : List Uuid) : Prop :=
  (st'.heap = st.heap ∧ ∀ id ∈ ids, ∀ s, st.heap.get id = some s → s.record u = none) ∨
  ∃ id ∈ ids, ∃ s p, st.heap.get id = some s ∧ s.record u = some p ∧
    ∀ id', st'.heap.get id' = if id' = id then some (touchLocked s u t).2 else st.heap.get id'

/-- The section of `touch` puts its room back. -/
lemma touch_section {inp : Input} {id : Uuid}
    {out : SectionOutcome (Section.touch u t).Reply} (hs : st.heap.get id = some s)
    (hrun : (Section.touch u t).run ⟨env.cfg, env.crates, inp.clockMs⟩ ⟨st.db, inp.faults⟩ s =
      some out) : out.reply = (s.record u).isSome ∧ ∀ id', (st.apply id out).heap.get id' =
        if id' = id then some (touchLocked s u t).2 else st.heap.get id' := by
  cases hrun
  refine ⟨rfl, fun id' => ?_⟩
  rw [ServerState.apply_heap, Heap.get_put]
  have hid : (touchLocked s u t).2.id = id := (rfl : _ = s.id).trans (Heap.get_id hs)
  simp only [SectionOutcome.quiet, hid]

lemma touchRooms_ends (ids : List Uuid) : (system env).Ends label
    (fun _ _ st' => Dates st st' u t ids) (Proc.touchRooms u t ids) st := by
  induction ids with
  | nil =>
    exact System.ends_ret.2 (.inl ⟨rfl, fun id hid => absurd hid List.not_mem_nil⟩)
  | cons id ids ih =>
    have hlater {st' : ServerState} (hnone : ∀ s, st.heap.get id = some s → s.record u = none)
        (h : Dates st st' u t ids) : Dates st st' u t (id :: ids) := by
      rcases h with ⟨hsame, hrest⟩ | ⟨id', hid', h⟩
      · refine .inl ⟨hsame, fun id' hid' => ?_⟩
        rcases List.mem_cons.1 hid' with rfl | hid'
        · exact hnone
        · exact hrest id' hid'
      · exact .inr ⟨id', List.mem_cons_of_mem _ hid', h⟩
    refine ends_read fun inp s hs => ?_
    split
    · rename_i hnone
      refine ih.mono fun _ _ st' h => hlater (fun s' hs' => ?_) h
      obtain rfl := Option.some.inj (hs.symm.trans hs')
      exact Option.isNone_iff_eq_none.1 hnone
    · rename_i hsome
      obtain ⟨p, hp⟩ := Option.ne_none_iff_exists'.1 fun h => hsome (Option.isNone_iff_eq_none.2 h)
      refine ends_locked fun inp' s' out hs' hrun => ?_
      obtain rfl := Option.some.inj (hs.symm.trans hs')
      obtain ⟨hreply, hheap⟩ := touch_section hs hrun
      have hfound : (out.reply : Bool) = true := by
        rw [hreply, hp]
        rfl
      have hstop (found : Bool) (h : found = true) : (system env).Ends label
          (fun _ _ st' => Dates st st' u t (id :: ids))
          (if found then pure () else Proc.touchRooms u t ids) (st.apply id out) := by
        rw [if_pos h]
        exact System.ends_ret.2 (.inr ⟨id, List.mem_cons_self, s, p, hs, hp, hheap⟩)
      exact hstop out.reply hfound

lemma touch_ends : (system env).Ends label (fun _ _ st' => Dates st st' u t st.byId)
    (Proc.touch u t) st := by
  refine ends_rooms fun inp ids hperm => (touchRooms_ends ids).mono fun _ _ st' h => ?_
  rcases h with ⟨hsame, hnone⟩ | ⟨id, hid, h⟩
  · exact .inl ⟨hsame, fun id hid => hnone id (hperm.mem_iff.2 hid)⟩
  · exact .inr ⟨id, hperm.mem_iff.1 hid, h⟩

/-- The scan may meet any room first, and so date the record of `u` there. -/
lemma exists_touch_first {id : Uuid} (hfree : st.held = []) (hid : id ∈ st.byId)
    (hs : st.heap.get id = some s) {p : ParticipantRecord} (hp : s.record u = some p) :
    ∃ h st', (system env).Solo label (Proc.touch u t) st h () st' ∧
      ∀ id', st'.heap.get id' = if id' = id then some (touchLocked s u t).2
        else st.heap.get id' := by
  let inp : Input := .plain (id :: st.byId.erase id) 0 ""
  let out : SectionOutcome (Section.touch u t).Reply :=
    .quiet (touchLocked s u t).1 (touchLocked s u t).2 ⟨st.db, inp.faults⟩
  have hrooms : (system env).handle .rooms inp st = some (inp.order, st) :=
    if_pos (List.perm_cons_erase hid).symm
  have hread : (system env).handle (.read id) inp st = some (s, st) := by
    simp only [system, Effect.handle, hs, hfree]
    rfl
  have hsection : (system env).handle (.section id (.touch u t)) inp st =
      some (out.reply, st.apply id out) := by
    simp only [system, Effect.handle, hs, hfree]
    rfl
  have hsome : ¬(s.record u).isNone = true := by simp [hp]
  have hfound : (out.reply : Bool) = true := by
    change (s.record u).isSome = true
    rw [hp]
    rfl
  have hstop (found : Bool) (h : found = true) : (system env).Solo label
      (if found then pure () else Proc.touchRooms u t (st.byId.erase id)) (st.apply id out) [] ()
      (st.apply id out) := by
    rw [if_pos h]
    exact .ret _ _
  have hscan : ∃ h, (system env).Solo label (if (s.record u).isNone then
      Proc.touchRooms u t (st.byId.erase id) else
      (Proc.locked id (.touch u t) >>= fun (found : Bool) =>
        if found then pure () else Proc.touchRooms u t (st.byId.erase id)))
      st h () (st.apply id out) := by
    rw [if_neg hsome]
    have hstep := System.Solo.step (S := system env) (e := Effect.section id (.touch u t))
      (k := fun (found : Bool) =>
        if found then pure () else Proc.touchRooms u t (st.byId.erase id))
      inp out.reply hsection (hstop out.reply hfound)
    exact ⟨_, hstep⟩
  obtain ⟨h, hscan⟩ := hscan
  exact ⟨_, _, .step inp inp.order hrooms (.step inp s hread hscan),
    (touch_section hs (rfl : (Section.touch u t).run ⟨env.cfg, env.crates, inp.clockMs⟩
      ⟨st.db, inp.faults⟩ s = some out)).2⟩

/-- Where every seat is covered whatever the order, no other record can come first. -/
lemma oneSeat_of_covers (hfree : st.held = []) (hends : (system env).Ends label
    (fun _ _ st' => Covered env.cfg st st' u t) (Proc.touch u t) st) : OneSeat st u t := by
  intro id hid s hs p hp
  obtain ⟨h, st', hsolo, hheap⟩ := @exists_touch_first env label _ u t _ _ hfree hid hs _ hp
  have hcovered : Covered env.cfg st st' u t := hends _ _ _ hsolo
  refine ⟨fun hl => ?_, fun id' hid' hne s' hs' p' hp' hseat hopen => ?_⟩
  · obtain ⟨s', hs', hc⟩ := hcovered id hid s hs
    rw [hheap, if_pos rfl] at hs'
    obtain rfl := Option.some.inj hs'
    have hkept := hc.left p hp hl
    rw [record_touchLocked, if_pos rfl, hp, Option.map_some] at hkept
    exact (congrArg (·.lastSeenMs) (Option.some.inj hkept)).symm
  · obtain ⟨s'', hs'', hc⟩ := hcovered id' hid' s' hs'
    rw [hheap, if_neg hne, hs'] at hs''
    obtain rfl := Option.some.inj hs''
    obtain ⟨q, hq, hfresh⟩ := hc.seat p' hp' hseat hopen
    obtain rfl := Option.some.inj (hp'.symm.trans hq)
    exact hfresh

lemma covers_of_oneSeat (hgood : Good st) (hone : OneSeat st u t) : (system env).Ends label
    (fun _ _ st' => Covered env.cfg st st' u t) (Proc.touch u t) st := by
  refine touch_ends.mono fun _ _ st' hdates id' hid' s' hs' => ?_
  rcases hdates with ⟨hsame, hnone⟩ | ⟨id, hid, s, p, hs, hp, hheap⟩
  · refine ⟨s', by rw [hsame, hs'], coveredIn_same (hgood id' s' hs').keyed (fun q hq => ?_) _⟩
    rw [hnone id' hid' s' hs'] at hq
    cases hq
  · obtain ⟨hleft, hothers⟩ := hone id hid s hs p hp
    by_cases hne : id' = id
    · subst hne
      obtain rfl := Option.some.inj (hs.symm.trans hs')
      exact ⟨_, by rw [hheap, if_pos rfl], coveredIn_touch (hgood id' s hs).keyed hp hleft _⟩
    · refine ⟨s', by rw [hheap, if_neg hne, hs'], coveredIn_same (hgood id' s' hs').keyed ?_ _⟩
      exact fun q hq hseat hopen => hothers id' hid' hne s' hs' q hq hseat hopen

end Touch

/-- **A sign of life covers every seat** of its user, whatever order the rooms are visited in,
exactly when no other record of the user can come first.  It runs alone, so that no task has a lock
it would wait for. -/
theorem touch_covers_iff {env : Env} {label : Op} {st : ServerState} (hgood : Good st)
    (hfree : st.held = []) (u : Uuid) (t : ℤ) :
    (system env).Ends label (fun _ _ st' => Covered env.cfg st st' u t) (Proc.touch u t) st ↔
      OneSeat st u t :=
  ⟨oneSeat_of_covers hfree, covers_of_oneSeat hgood⟩

/-! ### A room that was left -/

namespace LeftBehind

/-- A room of host `7` with a viewer `9`. -/
def room (id : Uuid) (status : ParticipantStatus) : RoomState :=
  { RoomState.new id "ABCDEF" "t" 7 (.replicate 32 0) true 0 Cap.host 0 with
    participants :=
      [{ userId := 7, pubkey := .replicate 32 0, displayName := "", joinedMs := 0,
         status := .connected, lastSeenMs := 0, isHost := true, capSet := Cap.host },
       { userId := 9, pubkey := .replicate 32 1, displayName := "", joinedMs := 0,
         status, lastSeenMs := 0, isHost := false, capSet := 0 }] }

/-- The viewer has left the first room and sits in the second. -/
def moved : ServerState :=
  { ServerState.empty with
    heap := (Heap.empty.put (room 1 .left)).put (room 2 .connected)
    byId := [1, 2] }

/-- The viewer sits in the only room. -/
def settled : ServerState :=
  { ServerState.empty with heap := Heap.empty.put (room 1 .disconnected), byId := [1] }

lemma goodRoom (id : Uuid) (status : ParticipantStatus) : GoodRoom (room id status) := by
  have hseat (v : Uuid) : (room id status).roster.seat v =
      if 7 = v then some ⟨.connected, true⟩ else if 9 = v then some ⟨status, false⟩ else none := by
    rw [RoomState.roster_seat]
    by_cases h7 : 7 = v <;> by_cases h9 : 9 = v <;>
      simp [room, recordIn_cons, h7, h9, ParticipantRecord.seat]
  refine ⟨by simp [RoomState.Keyed, room], ⟨.connected, ?_, fun _ => by decide⟩, ?_⟩
  · rw [hseat]
    exact if_pos rfl
  · intro v st hv
    rw [hseat] at hv
    split at hv
    · rename_i h
      exact h.symm
    · split at hv <;> cases hv

lemma good_settled : Good settled := by
  intro id s hs
  simp only [settled, Heap.get_put, Heap.get_empty] at hs
  split at hs
  · rw [← Option.some.inj hs]
    exact goodRoom 1 .disconnected
  · cases hs

/-- A sign of life dates the record in the room that was left, and the seat stays old. -/
theorem not_touch_covers : Good moved ∧ ¬(system Env.plain).Ends (.touch 9 10)
    (fun _ _ st' => Covered Env.plain.cfg moved st' 9 10) (Proc.touch 9 10) moved := by
  refine ⟨fun id s hs => ?_, fun hends => ?_⟩
  · simp only [moved, Heap.get_put, Heap.get_empty] at hs
    split at hs
    · rw [← Option.some.inj hs]
      exact goodRoom 2 .connected
    · split at hs
      · rw [← Option.some.inj hs]
        exact goodRoom 1 .left
      · cases hs
  · have hone := oneSeat_of_covers rfl hends 1 (by decide) (room 1 .left) rfl _ rfl
    have hdated : (0 : ℤ) = 10 := hone.1 rfl
    cases hdated

/-- The viewer of the only room is back after a sign of life. -/
theorem touch_covers_settled : (system Env.plain).Ends (.touch 9 10)
    (fun _ _ st' => Covered Env.plain.cfg settled st' 9 10) (Proc.touch 9 10) settled := by
  refine (touch_covers_iff good_settled rfl 9 10).2 fun id hid s hs p hp => ?_
  obtain rfl : id = 1 := by simpa [settled] using hid
  obtain rfl : room 1 .disconnected = s := Option.some.inj hs
  obtain rfl := Option.some.inj hp
  refine ⟨fun h => ?_, fun id' hid' hne => ?_⟩
  · cases h
  · exact absurd (by simpa [settled] using hid') hne

end LeftBehind

end Locast.Server
