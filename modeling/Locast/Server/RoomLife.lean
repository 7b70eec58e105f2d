import Locast.Rooms.CommandOrder
import Locast.Server.Publication

/-!
# The life of a room in a run of the server

Seen from one room, a run of the server is the life of that room: the sections on it, one after the
other, from a room that was created or restored.  While the room has a channel, what its sections
publish is on it, and everything else there tells of the participants, is relayed or is a manifest.
A room that is created has no channel at first.
-/

namespace Locast.Server

open Locast.Lib Locast.Protocol Locast.Rooms

variable {env : Env} {guard : List Step → Step → Prop} {st₀ st : ServerState} {h : List Step}
  {p : Tasks} {R : Uuid}

/-! ### Sections and their rooms -/

/-- A section sends to its own room, and a room that is inserted is new. -/
def Effect.homed : Effect → Prop
  | .section id sec => sec.target id = id
  | .insertRoom s => IsNew s
  | _ => True

lemma homed_of_benign {e : Effect} (he : e.benign = true) : e.homed := by
  cases e <;> first | exact trivial | cases he

namespace Proc

lemma join_homed (code : String) (u : Uuid) (pubkey : PubKey) (name : String) (nowMs : ℤ) :
    Only Effect.homed (fun _ => True) (join code u pubkey name nowMs) := by
  refine .next trivial fun found => ?_
  cases found with
  | none => exact trivial
  | some id =>
    refine .next trivial fun registered => ?_
    split
    · exact trivial
    · refine .next rfl fun joined => ?_
      cases joined with
      | error e => exact trivial
      | ok out => exact .next trivial fun _ => trivial

lemma rejoinInRoom_homed (u : Uuid) (pubkey : PubKey) (nowMs : ℤ) (id : Uuid) :
    Only Effect.homed (fun _ => True) (rejoinInRoom u pubkey nowMs id) := by
  refine .next trivial fun s => .next trivial fun s' => ?_
  change Only _ _ (if isHostUser s u && s'.hostDisconnectDeadlineMs.isSome then _ else _)
  split
  · refine .next trivial fun cleared => ?_
    cases cleared with
    | error e => exact trivial
    | ok _ =>
      refine .next trivial fun s'' => ?_
      dsimp only
      split
      · exact trivial
      · refine .next trivial fun added => ?_
        cases added with
        | error e => exact trivial
        | ok _ => exact .next rfl fun _ => .next trivial fun _ => trivial
  · refine .next trivial fun updated => ?_
    cases updated with
    | error e => exact trivial
    | ok _ => exact .next rfl fun _ => trivial

lemma rejoin_homed (u : Uuid) (pubkey : PubKey) (nowMs : ℤ) :
    Only Effect.homed (fun _ => True) (rejoin u pubkey nowMs) := by
  refine .next trivial fun ids => ?_
  refine .bind (roomsWithMember_only (fun _ => homed_of_benign) u ids) fun mine _ => ?_
  split
  · exact trivial
  · refine .bind (only_collect _ fun id _ => rejoinInRoom_homed u pubkey nowMs id)
      fun results _ => ?_
    split <;> exact trivial

lemma create_homed (title : String) (u : Uuid) (pubkey : PubKey) (migration : Bool) (nowMs : ℤ) :
    Only Effect.homed (fun _ => True) (create title u pubkey migration nowMs) :=
  create_only (fun _ => homed_of_benign) title u pubkey migration nowMs (fun _ _ => trivial)
    (fun _ => trivial)
    (fun id code wallMs => ⟨id, code, title, u, pubkey, migration, nowMs, wallMs, rfl⟩)
    (fun _ _ => trivial) fun _ => trivial

lemma leaveRoom_homed (u : Uuid) (wanted : Option Uuid) (intentional : Bool) (nowMs : ℤ) :
    Only Effect.homed (fun _ => True) (leaveRoom u wanted intentional nowMs) :=
  leaveRoom_only (fun _ => homed_of_benign) u wanted intentional nowMs (fun _ _ => rfl)
    (fun _ _ _ _ => trivial) fun _ _ _ => trivial

lemma touch_homed (u : Uuid) (nowMs : ℤ) : Only Effect.homed (fun _ => True) (touch u nowMs) :=
  touch_only (fun _ => homed_of_benign) u nowMs fun _ => rfl

lemma onConnectionLost_homed (u : Uuid) (nowMs : ℤ) :
    Only Effect.homed (fun _ => True) (onConnectionLost u nowMs) := by
  refine .next trivial fun ids => ?_
  refine .bind (roomsWithMember_only (fun _ => homed_of_benign) u ids) fun mine _ => ?_
  split
  · exact trivial
  · exact .bind (only_collect _ fun id _ => connectionLostInRoom_only (fun _ => homed_of_benign)
      u nowMs id rfl (fun _ _ => trivial) (fun _ => trivial) trivial rfl) fun _ _ => trivial

lemma sweep_homed {sec : Section} (hsec : ∀ id, sec.target id = id) (ids : List Uuid) :
    Only Effect.homed (fun _ => True) (sweep sec ids) :=
  only_collect _ fun id _ => .next (hsec id) fun _ => trivial

lemma tickGrace_homed (nowMs : ℤ) : Only Effect.homed (fun _ => True) (tickGrace nowMs) := by
  refine .next trivial fun ids => ?_
  refine .bind (sweep_homed (fun _ => rfl) ids) fun replies _ => ?_
  refine .bind (only_forEach _ fun r _ => .next trivial fun _ => trivial) fun _ _ => ?_
  refine .bind (only_forEach _ fun id _ => .next trivial fun _ => ?_) fun _ _ => trivial
  exact removeRoom_only (fun _ => homed_of_benign) id fun _ => trivial

lemma announceTimeouts_homed (gone : List (Uuid × Uuid)) :
    Only Effect.homed (fun _ => True) (announceTimeouts gone) :=
  only_forEach _ fun _ _ => .next trivial fun _ => trivial

lemma tickPresenceTimeout_homed (nowMs : ℤ) :
    Only Effect.homed (fun _ => True) (tickPresenceTimeout nowMs) := by
  refine .next trivial fun ids => .bind (sweep_homed (fun _ => rfl) ids) fun replies _ => ?_
  exact .bind (announceTimeouts_homed _) fun _ _ => trivial

lemma tickStaleParticipants_homed (cfg : RoomRegistryConfig) (nowMs : ℤ) :
    Only Effect.homed (fun _ => True) (tickStaleParticipants cfg nowMs) := by
  refine .next trivial fun ids => .bind (sweep_homed (fun _ => rfl) ids) fun replies _ => ?_
  refine .bind (announceTimeouts_homed _) fun _ _ => ?_
  refine .bind (only_forEach _ fun id _ => ?_) fun _ _ => trivial
  exact .next trivial fun _ => trivial

/-- A command's section is on the room the envelope names, where its items go. -/
lemma homed_of_dispatched {envelope : Envelope} {u : Uuid} {pubkey : PubKey} {e : Effect}
    (h : Dispatched envelope u pubkey e) : e.homed := by
  cases h with
  | benign h => exact homed_of_benign h
  | «section» hid hsec =>
    rename_i id sec
    cases sec with
    | strokeBegin e p u' pubkey' nowMs =>
      rw [Effect.homed, Section.target, hsec.1, hid, Option.getD_some]
    | strokePoint e p u' => rw [Effect.homed, Section.target, hsec.1, hid, Option.getD_some]
    | strokeEnd e p u' => rw [Effect.homed, Section.target, hsec.1, hid, Option.getD_some]
    | _ => rfl
  | relay | putManifest | publishManifest => exact trivial

lemma dispatchAuthed_homed (env : Env) {envelope : Envelope} {u : Uuid} {pubkey : PubKey} :
    Only Effect.homed (fun _ => True) (dispatchAuthed env envelope u pubkey) :=
  dispatchAuthed_idle (I := fun _ => True) trivial (fun _ _ h => h)
    (fun _ he => ⟨homed_of_dispatched he, fun _ _ => rfl⟩)
    (fun title migration nowMs => create_homed title u pubkey migration nowMs)
    (fun code name nowMs => join_homed code u pubkey name nowMs)
    (fun roomId nowMs => leaveRoom_homed u roomId true nowMs)
    fun nowMs => touch_homed u nowMs

end Proc

/-- **Every program's sections send to their own rooms.** -/
theorem program_homed (env : Env) (op : Op) :
    Only Effect.homed (fun _ => True) (op.program env) := by
  cases op with
  | create title u pubkey migration nowMs =>
    exact (Proc.create_homed title u pubkey migration nowMs).bind fun _ _ => trivial
  | join code u pubkey name nowMs =>
    exact (Proc.join_homed code u pubkey name nowMs).bind fun _ _ => trivial
  | leaveRoom u roomId intentional nowMs =>
    exact (Proc.leaveRoom_homed u roomId intentional nowMs).bind fun _ _ => trivial
  | onConnectionLost u nowMs =>
    exact (Proc.onConnectionLost_homed u nowMs).bind fun _ _ => trivial
  | rejoin u pubkey nowMs => exact (Proc.rejoin_homed u pubkey nowMs).bind fun _ _ => trivial
  | touch u nowMs => exact (Proc.touch_homed u nowMs).bind fun _ _ => trivial
  | tickGrace nowMs => exact (Proc.tickGrace_homed nowMs).bind fun _ _ => trivial
  | tickPresenceTimeout nowMs =>
    exact (Proc.tickPresenceTimeout_homed nowMs).bind fun _ _ => trivial
  | tickStaleParticipants nowMs =>
    exact (Proc.tickStaleParticipants_homed env.cfg nowMs).bind fun _ _ => trivial
  | dispatch envelope u pubkey => exact (Proc.dispatchAuthed_homed env).bind fun _ _ => trivial

lemma homed_of_run (r : RunFrom env guard st₀ h p) : ∀ d ∈ h, d.effect.homed :=
  fun d hd => r.footprint (c := fun _ => True) (fun op _ => program_homed env op) d hd trivial

/-! ### What a room is at its start -/

lemma IsNew.fresh {s : RoomState} (h : IsNew s) : s.Fresh := by
  obtain ⟨id, code, title, u, pubkey, migration, nowMs, wallMs, rfl⟩ := h
  exact ⟨⟨rfl, rfl⟩, wallMs, rfl⟩

/-- **What a boot restores is fresh**: neither commands nor strokes are stored. -/
lemma fresh_boot (db : Db) (wallMs : Uuid → ℕ) :
    ∀ id s, (boot db wallMs).heap.get id = some s → s.Fresh := by
  have hfold (rows : List RoomRow) (st : ServerState)
    (h : ∀ id s, st.heap.get id = some s → s.Fresh) :
      ∀ id s, (rows.foldl (fun st row => st.rehydrate row (wallMs row.id)) st).heap.get id =
        some s → s.Fresh := by
    induction rows generalizing st with
    | nil => exact h
    | cons row rows ih =>
      refine ih _ fun id s hs => ?_
      have hheap : (st.rehydrate row (wallMs row.id)).heap =
          st.heap.put (row.rehydrated (st.db.roomParticipants row.id) (wallMs row.id)) := by
        unfold ServerState.rehydrate
        dsimp only
        split <;> rfl
      rw [hheap, Heap.get_put] at hs
      split at hs
      · cases hs
        exact ⟨⟨rfl, rfl⟩, _, rfl⟩
      · exact h id s hs
  exact hfold _ _ fun id s hs => by cases hs

/-! ### Lives -/

/-- The items that sections publish: the others tell of the participants, are relayed or are
manifests. -/
def logged (items : List BroadcastItem) : List BroadcastItem :=
  items.filter fun i => !i.payload.isRoster && !i.payload.isRelayed && !i.payload.isManifest

@[simp] lemma logged_append (items items' : List BroadcastItem) :
    logged (items ++ items') = logged items ++ logged items' := List.filter_append ..

/-- What a section published for the log. -/
def Turn.logged (t : Turn) : List BroadcastItem := Server.logged (t.out.sent.map (·.2))

/-- The section a step is on `R`, with its reply. -/
def Step.sectionOn (R : Uuid) (d : Step) : Option ((sec : Section) × sec.Reply) :=
  match d with
  | ⟨_, .section id sec, _, r, _, _⟩ => if id = R then some ⟨sec, r⟩ else none
  | _ => none

/-- The sections on `R`, in order. -/
def sectionsOn (R : Uuid) (h : List Step) : List ((sec : Section) × sec.Reply) :=
  h.filterMap (Step.sectionOn R)

lemma sectionsOn_append (d : Step) :
    sectionsOn R (h ++ [d]) = sectionsOn R h ++ (d.sectionOn R).toList := by
  rw [sectionsOn, List.filterMap_append]
  cases hd : d.sectionOn R <;> simp [sectionsOn, hd]

/-- The section ran with the server's configuration and crates. -/
def Turn.ofEnv (env : Env) (t : Turn) : Prop := t.env.cfg = env.cfg ∧ t.env.crates = env.crates

/-- The steps that find no channel of `R`. -/
def untold (R : Uuid) (h : List Step) : List Step := h.filter fun d => (d.before.tx.get R).isNone

lemma untold_append (d : Step) : untold R (h ++ [d]) =
    untold R h ++ if (d.before.tx.get R).isSome then [] else [d] := by
  rw [untold, List.filter_append]
  cases hd : d.before.tx.get R <;> simp [untold, hd]

/-- **The life of `R` in a run** from a fresh room `s₀` over `s₁`, where it got its channel, to `s`:
the sections `early` before it had its channel, the sections `turns` while it had it, and those
after.  A room of the start has its channel. -/
structure LifeOf (env : Env) (st₀ : ServerState) (R : Uuid) (h : List Step) (st : ServerState)
    (s₀ s₁ s : RoomState) (early turns late : List Turn) : Prop where
  fresh : s₀.Fresh
  room : st.heap.get R = some s
  before : RoomRun (Turn.ofEnv env) s₀ early s₁
  run : RoomRun (Turn.ofEnv env) s₁ (turns ++ late) s
  sections : sectionsOn R h = (early ++ turns ++ late).map fun t => ⟨t.sec, t.out.reply⟩
  unheard : sectionsOn R (untold R h) = (early ++ late).map fun t => ⟨t.sec, t.out.reply⟩
  items : logged (sentTo R h) = turns.flatMap Turn.logged
  waiting : tally (Step.opens R) h ≠ tally (Step.creates R) h →
    st.tx.get R = none ∧ turns = [] ∧ late = []
  opened : ∀ d ∈ h, d.opens R = true → d.before.heap.get R = some s₁
  made : tally (Step.creates R) h = 0 → early = []
  restored : ∀ t, st₀.heap.get R = some t → t = s₁
  current : (st.tx.get R).isSome → late = []
  ended : ∀ t ∈ late, t.before.state = .ended

/-- A room with a channel that was not inserted in the run had no section before it. -/
lemma LifeOf.early_of_unopened {s₀ s₁ s : RoomState} {early turns late : List Turn}
    (hl : LifeOf env st₀ R h st s₀ s₁ s early turns late) (htx : (st.tx.get R).isSome)
    (hunopened : ∀ d ∈ h, d.opens R = false) : early = [] := by
  have hopens : tally (Step.opens R) h = 0 :=
    List.countP_eq_zero.2 fun d hd => by simp [hunopened d hd]
  refine hl.made ?_
  by_contra hne
  have hnone := (hl.waiting (by omega)).1
  simp [hnone] at htx

/-- Nothing has happened in `R`. -/
structure Unborn (st₀ : ServerState) (R : Uuid) (h : List Step) (st : ServerState) : Prop where
  start : st₀.heap.get R = none
  room : st.heap.get R = none
  sections : sectionsOn R h = []
  items : logged (sentTo R h) = []
  opens : tally (Step.opens R) h = 0

lemma Unborn.untold (hI : Unborn st₀ R h st) : sectionsOn R (untold R h) = [] := by
  refine List.filterMap_eq_nil_iff.2 fun d hd => ?_
  exact List.filterMap_eq_nil_iff.1 hI.sections d (List.mem_filter.1 hd).1

/-- `R` has a life in the run, or is still to come. -/
def Lives (env : Env) (st₀ : ServerState) (R : Uuid) (h : List Step) (st : ServerState) : Prop :=
  Unborn st₀ R h st ∨
    ∃ s₀ s₁ s early turns late, LifeOf env st₀ R h st s₀ s₁ s early turns late

/-- A step that is nothing to the life of `R`. -/
structure Step.LeavesLife (R : Uuid) (d : Step) : Prop where
  room : d.after.heap.get R = d.before.heap.get R
  channel : (d.after.tx.get R).isSome → (d.before.tx.get R).isSome
  section_eq : d.sectionOn R = none
  items : logged (d.sent R) = []
  creates : d.creates R = false
  opens : d.opens R = false

lemma sectionsOn_untold {d : Step} (hd : d.sectionOn R = none) :
    sectionsOn R (untold R (h ++ [d])) = sectionsOn R (untold R h) := by
  rw [untold_append]
  split
  · rw [List.append_nil]
  · rw [sectionsOn_append, hd, Option.toList_none, List.append_nil]

lemma Lives.leaves {d : Step} (hI : Lives env st₀ R h d.before) (hd : d.LeavesLife R) :
    Lives env st₀ R (h ++ [d]) d.after := by
  have hsections : sectionsOn R (h ++ [d]) = sectionsOn R h := by
    rw [sectionsOn_append, hd.section_eq, Option.toList_none, List.append_nil]
  have hitems : logged (sentTo R (h ++ [d])) = logged (sentTo R h) := by
    rw [sentTo_append, sentTo_singleton, logged_append, hd.items, List.append_nil]
  have hopens : tally (Step.opens R) (h ++ [d]) = tally (Step.opens R) h := by simp [hd.opens]
  have hcreates : tally (Step.creates R) (h ++ [d]) = tally (Step.creates R) h := by
    simp [hd.creates]
  rcases hI with hI | ⟨s₀, s₁, s, early, turns, late, hI⟩
  · exact .inl ⟨hI.start, hd.room.trans hI.room, hsections.trans hI.sections,
      hitems.trans hI.items, hopens.trans hI.opens⟩
  · refine .inr ⟨s₀, s₁, s, early, turns, late, { hI with
      room := hd.room.trans hI.room
      sections := hsections.trans hI.sections
      unheard := (sectionsOn_untold hd.section_eq).trans hI.unheard
      items := hitems.trans hI.items
      waiting := fun hne => ?_
      opened := fun d' hd' ho => ?_
      made := fun hzero => hI.made (by rwa [hcreates] at hzero)
      current := fun h => hI.current (hd.channel h) }⟩
    · rw [hopens, hcreates] at hne
      obtain ⟨hnone, hturns⟩ := hI.waiting hne
      refine ⟨?_, hturns⟩
      rw [← Option.not_isSome_iff_eq_none]
      intro hsome
      have := hd.channel hsome
      simp [hnone] at this
    · rcases List.mem_append.1 hd' with hd' | hd'
      · exact hI.opened d' hd' ho
      · rw [List.mem_singleton.1 hd', hd.opens] at ho
        cases ho

/-- Only a section on `R` and the insertions of its creation are something to the life of `R`. -/
lemma leavesLife {d : Step} (hd : (system env).Handled d) (ho : d.effect.outside env.crates)
    (hhomed : d.effect.homed) (hsection : ∀ sec, d.effect ≠ .section R sec)
    (hcreates : d.creates R = false) (hopens : d.opens R = false) : d.LeavesLife R := by
  have hc := step_cases hd
  cases hc with
  | «section» op inp before id sec s out hs _ hrun =>
    have hid : R ≠ id := by
      rintro rfl
      exact hsection sec rfl
    have hsame := @handle_section_frame _ inp _ _ id R sec out.reply hd hid hhomed
    refine ⟨hsame.1, fun h => by rwa [hsame.2] at h, if_neg fun h => hid h.symm, ?_,
      hcreates, hopens⟩
    rw [Step.sent_of_eq hsame.2]
    rfl
  | insertRoom op inp before s hfree =>
    have hid : ¬R = s.id := fun h => of_decide_eq_false hcreates h.symm
    refine ⟨?_, fun h => h, rfl, by rw [Step.sent_of_eq rfl]; rfl, hcreates, hopens⟩
    rw [ServerState.insertRoom_heap, Heap.get_put, if_neg hid]
  | insertCode =>
    exact ⟨rfl, fun h => h, rfl, by rw [Step.sent_of_eq rfl]; rfl, hcreates, hopens⟩
  | insertChannel op inp before id =>
    have hid : ¬R = id := fun h => of_decide_eq_false hopens h.symm
    refine ⟨rfl, fun h => ?_, rfl, by rw [sent_insertChannel]; rfl, hcreates, hopens⟩
    rwa [ServerState.insertChannel_tx, if_neg hid] at h
  | putManifest =>
    exact ⟨rfl, fun h => h, rfl, by rw [Step.sent_of_eq rfl]; rfl, hcreates, hopens⟩
  | publishManifest op inp before id c =>
    refine ⟨by simp, fun h => ?_, rfl, ?_, hcreates, hopens⟩
    · simpa [ServerState.publishManifest_tx] using h
    · rw [sent_publishManifest]
      split
      · refine List.filter_eq_nil_iff.2 fun item hitem => ?_
        simp [wireItems_isManifest item hitem]
      · rfl
  | publish op inp before id item =>
    have hitem : item.payload.isRoster = true ∨ item.payload.isRelayed = true := ho
    refine ⟨by simp, fun h => ?_, rfl, ?_, hcreates, hopens⟩
    · simpa [ServerState.publish_tx] using h
    · rw [sent_publish]
      split
      · rcases hitem with hitem | hitem <;> simp [logged, hitem]
      · rfl
  | remove op inp before map id =>
    refine ⟨by simp, fun h => ?_, rfl, by rw [sent_remove]; rfl, hcreates, hopens⟩
    rw [ServerState.remove_tx] at h
    split at h
    · simp at h
    · exact h
  | minor _ hminor hheap htx =>
    refine ⟨by rw [hheap], fun h => by rwa [htx] at h, ?_,
      by rw [Step.sent_of_eq (by rw [htx])]; rfl, hcreates, hopens⟩
    obtain ⟨op, e, inp, r, before, after⟩ := d
    cases e <;> first | rfl | cases hminor

/-- A section on `R`. -/
lemma Lives.section {op : Op} {inp : Input} {before : ServerState} {sec : Section} {s : RoomState}
    {out : SectionOutcome sec.Reply} (hI : Lives env st₀ R h before)
    (hs : before.heap.get R = some s)
    (hrun : sec.run ⟨env.cfg, env.crates, inp.clockMs⟩ ⟨before.db, inp.faults⟩ s = some out)
    (htarget : sec.target R = R) (hstart : (st₀.heap.get R).isSome → tally (Step.creates R) h = 0)
    (hle : tally (Step.opens R) h ≤ tally (Step.creates R) h)
    (hone : tally (Step.creates R) h ≤ 1)
    (htx : s.state ≠ .ended → tally (Step.opens R) h = tally (Step.creates R) h →
      (before.tx.get R).isSome) :
    Lives env st₀ R (h ++ [⟨op, .section R sec, inp, out.reply, before, before.apply R out⟩])
      (before.apply R out) := by
  rcases hI with hI | ⟨s₀, s₁, s', early, turns, late, hI⟩
  · exact absurd (hI.room.symm.trans hs) (by simp)
  obtain rfl : s' = s := Option.some.inj (hI.room.symm.trans hs)
  let t : Turn := ⟨_, _, sec, s', out, hrun⟩
  have hid : s'.id = R := Heap.get_id hs
  have hout : out.state.id = R := (Section.run_framed hrun).id.trans hid
  generalize hd : (⟨op, .section R sec, inp, out.reply, before, before.apply R out⟩ : Step) = d
  have hroom : (before.apply R out).heap.get R = some out.state := by
    rw [ServerState.apply_heap, Heap.get_put, if_pos hout.symm]
  have hon : Step.sectionOn R d = some ⟨sec, out.reply⟩ := by simp [← hd, Step.sectionOn]
  have hbefore : d.before = before := by rw [← hd]
  have hsections : sectionsOn R (h ++ [d]) =
      (early ++ turns ++ late ++ [t]).map fun t => ⟨t.sec, t.out.reply⟩ := by
    have hone : [t].map (fun t => (⟨t.sec, t.out.reply⟩ : (sec : Section) × sec.Reply)) =
        [⟨sec, out.reply⟩] := rfl
    rw [sectionsOn_append, hI.sections, hon, Option.toList_some, ← hone, ← List.map_append]
  have hsent : Step.sent R d = if (before.tx.get R).isSome then out.sent.map (·.2) else [] := by
    have hall : ServerState.itemsTo R out.sent = out.sent.map (·.2) := by
      refine congrArg (List.map _) (List.filter_eq_self.2 fun i hi => ?_)
      simpa [hid, htarget] using ((Section.run_framed hrun).sent i hi).1
    rw [← hd, sent_section, hall]
  have hchannel : ((before.apply R out).tx.get R).isSome = (before.tx.get R).isSome := by
    rw [ServerState.apply_tx, Option.isSome_map]
  have hopens : tally (Step.opens R) (h ++ [d]) = tally (Step.opens R) h := by
    simp [← hd, Step.opens]
  have hcreates : tally (Step.creates R) (h ++ [d]) = tally (Step.creates R) h := by
    simp [← hd, Step.creates]
  have hopened : ∀ d' ∈ h ++ [d], Step.opens R d' = true → d'.before.heap.get R = some s₁ := by
    intro d' hd' ho
    rcases List.mem_append.1 hd' with hd' | hd'
    · exact hI.opened d' hd' ho
    · rw [List.mem_singleton.1 hd', ← hd] at ho
      cases ho
  have ht : Turn.ofEnv env t := ⟨rfl, rfl⟩
  have hquiet (hnone : ¬(before.tx.get R).isSome) :
      logged (sentTo R (h ++ [d])) = logged (sentTo R h) := by
    rw [sentTo_append, sentTo_singleton, hsent, if_neg hnone, List.append_nil]
  have hunheard (hnone : ¬(before.tx.get R).isSome) : sectionsOn R (untold R (h ++ [d])) =
      sectionsOn R (untold R h) ++ [⟨sec, out.reply⟩] := by
    rw [untold_append, hbefore, if_neg hnone, sectionsOn_append, hon]
    rfl
  have hstays (hnone : ¬(before.tx.get R).isSome) : (before.apply R out).tx.get R = none := by
    rw [← Option.not_isSome_iff_eq_none, hchannel]
    exact hnone
  by_cases hopen : tally (Step.opens R) h = tally (Step.creates R) h
  · by_cases hsome : (before.tx.get R).isSome = true
    · -- the room has its channel
      obtain rfl := hI.current hsome
      have hrun' := RoomRun.turn t (by simpa using hI.run) ht
      refine .inr ⟨s₀, s₁, out.state, early, turns ++ [t], [], hI.fresh, hroom, hI.before,
        by simpa using hrun', by simpa using hsections, ?_, ?_,
        fun hne => absurd (by rw [hopens, hcreates, hopen]) hne, hopened, ?_, hI.restored,
        fun _ => rfl, fun t ht => absurd ht List.not_mem_nil⟩
      · rw [untold_append, hbefore, if_pos hsome, List.append_nil, hI.unheard]
      · rw [sentTo_append, sentTo_singleton, logged_append, hI.items, hsent, if_pos hsome,
          List.flatMap_append]
        simp [t, Turn.logged]
      · rw [hcreates]
        exact hI.made
    · -- its channel is gone
      have hrun' := RoomRun.turn t hI.run ht
      refine .inr ⟨s₀, s₁, out.state, early, turns, late ++ [t], hI.fresh, hroom, hI.before,
        by simpa using hrun', by simpa using hsections, ?_, by rw [hquiet hsome, hI.items],
        fun hne => absurd (by rw [hopens, hcreates, hopen]) hne, hopened, ?_, hI.restored,
        fun h => absurd (hchannel ▸ h) hsome, fun t' ht' => ?_⟩
      · rw [hunheard hsome, hI.unheard]
        simp [t]
      · rw [hcreates]
        exact hI.made
      · rcases List.mem_append.1 ht' with ht' | ht'
        · exact hI.ended t' ht'
        · rw [List.mem_singleton.1 ht']
          by_contra hrunning
          exact hsome (htx hrunning hopen)
  · -- it has not yet its channel
    obtain ⟨hnone, rfl, rfl⟩ := hI.waiting hopen
    have hsome : ¬(before.tx.get R).isSome := by simp [hnone]
    obtain rfl := hI.run.eq_of_nil rfl
    have hbefore' := RoomRun.turn t hI.before ht
    refine .inr ⟨s₀, out.state, out.state, early ++ [t], [], [], hI.fresh, hroom, hbefore', .start,
      by simpa using hsections, ?_, by rw [hquiet hsome, hI.items], fun _ =>
        ⟨hstays hsome, rfl, rfl⟩,
      fun d' hd' ho => ?_, fun hzero => ?_, fun t' ht' => ?_, fun _ => rfl,
      fun t ht => absurd ht List.not_mem_nil⟩
    · rw [hunheard hsome, hI.unheard]
      simp [t]
    · have hpos : 0 < tally (Step.opens R) (h ++ [d]) := List.countP_pos_iff.2 ⟨d', hd', ho⟩
      omega
    · omega
    · have := hstart (by rw [ht']; rfl)
      omega

/-- The room is created. -/
lemma Lives.creates {op : Op} {inp : Input} {before : ServerState} {s : RoomState}
    (hI : Lives env st₀ s.id h before) (hnew : IsNew s) (hfree : before.heap.get s.id = none)
    (htx : before.tx.get s.id = none) :
    Lives env st₀ s.id (h ++ [⟨op, .insertRoom s, inp, (), before, before.insertRoom s⟩])
      (before.insertRoom s) := by
  rcases hI with hI | ⟨s₀, s₁, s', early, turns, late, hI⟩
  · refine .inr ⟨s, s, s, [], [], [], hnew.fresh, ?_, .start, .start, ?_, ?_, ?_,
      fun _ => ⟨htx, rfl, rfl⟩, fun d hd ho => ?_, fun _ => rfl, fun t ht => ?_, fun _ => rfl,
      fun t ht => absurd ht List.not_mem_nil⟩
    · rw [ServerState.insertRoom_heap, Heap.get_put, if_pos rfl]
    · rw [sectionsOn_append, hI.sections]
      rfl
    · rw [sectionsOn_untold rfl, hI.untold]
      rfl
    · rw [sentTo_append, sentTo_singleton, logged_append, hI.items, Step.sent_of_eq rfl]
      rfl
    · rcases List.mem_append.1 hd with hd | hd
      · have hpos : 0 < tally (Step.opens s.id) h := List.countP_pos_iff.2 ⟨d, hd, ho⟩
        have := hI.opens
        omega
      · rw [List.mem_singleton.1 hd] at ho
        cases ho
    · rw [hI.start] at ht
      cases ht
  · exact absurd (hfree.symm.trans hI.room) (by simp)

/-- The room gets its channel. -/
lemma Lives.opens {op : Op} {inp : Input} {before : ServerState} (hI : Lives env st₀ R h before)
    (hsome : (before.heap.get R).isSome) (hopens : tally (Step.opens R) h = 0)
    (hcreates : tally (Step.creates R) h = 1) :
    Lives env st₀ R (h ++ [⟨op, .insertChannel R, inp, (), before, before.insertChannel R⟩])
      (before.insertChannel R) := by
  rcases hI with hI | ⟨s₀, s₁, s, early, turns, late, hI⟩
  · simp [hI.room] at hsome
  obtain ⟨hnone, rfl, rfl⟩ := hI.waiting (by omega)
  obtain rfl := hI.run.eq_of_nil rfl
  refine .inr ⟨s₀, s, s, early, [], [], { hI with
    sections := ?_
    unheard := ?_
    items := ?_
    waiting := fun hne => absurd ?_ hne
    opened := fun d hd ho => ?_
    made := fun hzero => hI.made ?_
    current := fun _ => rfl }⟩
  · rw [sectionsOn_append, hI.sections]
    simp [Step.sectionOn]
  · rw [sectionsOn_untold rfl, hI.unheard]
  · rw [sentTo_append, sentTo_singleton, logged_append, hI.items, sent_insertChannel]
    rfl
  · simp [Step.opens, Step.creates, hopens, hcreates]
  · rcases List.mem_append.1 hd with hd | hd
    · have hpos : 0 < tally (Step.opens R) h := List.countP_pos_iff.2 ⟨d, hd, ho⟩
      omega
    · rw [List.mem_singleton.1 hd]
      exact hI.room
  · simpa [Step.creates] using hzero

/-- A room of the start is not created. -/
lemma unmade_of_start (r : RunFrom env guard st₀ h p) (hR : (st₀.heap.get R).isSome) :
    (p.state.heap.get R).isSome ∧ tally (Step.creates R) h = 0 := by
  refine System.Run.history_invariant
    (fun h st => (st.heap.get R).isSome ∧ tally (Step.creates R) h = 0) ⟨hR, rfl⟩
    (fun h p d p' r r' hbefore hafter hd hI => ?_) r
  have hc := step_cases hd
  refine ⟨hc.room_stays hI.1, ?_⟩
  have hcreates : Step.creates R d = false := by
    cases hc with
    | insertRoom op inp before s hfree =>
      refine decide_eq_false ?_
      rintro rfl
      simp [hfree] at hI
    | minor d hminor =>
      obtain ⟨op, e, inp, resp, before, after⟩ := d
      cases e <;> first | rfl | cases hminor
    | _ => rfl
  simpa [hcreates] using hI.2

/-- **Every run, seen from a room, is the life of that room.** -/
theorem lives_of_run (r : RunFrom env guard st₀ h p) (hr : st₀.Restored R)
    (hfresh : ∀ s, st₀.heap.get R = some s → s.Fresh) : Lives env st₀ R h p.state := by
  have hlawful := (pendingInv_of_runFrom R r hr.held).2
  refine System.Run.history_invariant (Lives env st₀ R) ?_
    (fun h p d p' r r' hbefore hafter hd hI => ?_) (r.guarded hlawful)
  · cases hR : st₀.heap.get R with
    | none => exact .inl ⟨hR, hR, rfl, rfl, rfl⟩
    | some s =>
      exact .inr ⟨s, s, s, [], [], [], hfresh s hR, hR, .start, .start, rfl, rfl, rfl,
        fun hne => absurd rfl hne, fun d hd => absurd hd List.not_mem_nil,
        fun _ => rfl, fun t ht => Option.some.inj (ht.symm.trans hR), fun _ => rfl,
        fun t ht => absurd ht List.not_mem_nil⟩
  have hclosing := (closingInv_of_runFrom R r hr.unended).1
  have hclosing' := (closingInv_of_runFrom R r' hr.unended).1
  rw [← hbefore] at hclosing
  have hopened := hclosing.opened
  have hone := hclosing.created
  have ho : d.effect.outside env.crates := by
    obtain ⟨-, -, -, -, -, hl⟩ := System.Run.before r' d (by simp)
    exact hl.outside
  have hhomed := homed_of_run r' d (by simp)
  have hc := step_cases hd
  by_cases hsection : ∃ sec, d.effect = .section R sec
  · obtain ⟨sec, he⟩ := hsection
    cases hc with
    | «section» op inp before id sec' s out hs _ hrun =>
      cases he
      exact hI.section hs hrun hhomed (fun hR => (unmade_of_start r hR).2) (by omega) hone
        fun hrunning hopen => (hclosing.channel_of_open hs hrunning).2 hopen
    | minor _ hminor => simp [he, Effect.isMajor] at hminor
    | _ => cases he
  by_cases hcreates : Step.creates R d = true
  · cases hc with
    | insertRoom op inp before s hfree =>
      obtain rfl := of_decide_eq_true hcreates
      refine hI.creates hhomed hfree ?_
      have hends := hclosing.unborn hfree
      have hremoved := hclosing.removed
      have hcleared := hclosing.cleared
      rw [← Option.not_isSome_iff_eq_none, hclosing.channel (by omega), hfree]
      simp
    | minor d hminor =>
      obtain ⟨op, e, inp, resp, before, after⟩ := d
      cases e <;> first | cases hcreates | cases hminor
    | _ => cases hcreates
  by_cases hopens : Step.opens R d = true
  · have hlast := hclosing'.opened
    rw [tally_append, tally_append, if_pos hopens, if_neg hcreates] at hlast
    cases hc with
    | insertChannel op inp before id =>
      obtain rfl := of_decide_eq_true hopens
      exact hI.opens (hclosing.room (by omega)) (by omega) (by omega)
    | minor d hminor =>
      obtain ⟨op, e, inp, resp, before, after⟩ := d
      cases e <;> first | cases hopens | cases hminor
    | _ => cases hopens
  · exact hI.leaves (leavesLife hd ho hhomed (fun sec he => hsection ⟨sec, he⟩)
      (by simpa using hcreates) (by simpa using hopens))

end Locast.Server
