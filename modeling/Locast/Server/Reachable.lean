import Locast.Server.Play
import Locast.Server.Session

/-!
# Reachable states

What every run keeps, and the rules for results about runs: `StepCase` says once what a step can do,
`Run.invariant` is the invariant rule with each task's memory, and `Run.room` the rule for
invariants of single rooms.
-/

namespace Locast.Server

open Locast.Lib Locast.Protocol Locast.Rooms

/-! ### Rooms in good order -/

/-- The room has one record a user, and one host. -/
structure GoodRoom (s : RoomState) : Prop where
  keyed : s.Keyed
  host : s.roster.HostSeat

/-- Every room is in good order. -/
def Good (st : ServerState) : Prop := ∀ id s, st.heap.get id = some s → GoodRoom s

lemma IsNew.good {s : RoomState} (h : IsNew s) : GoodRoom s := by
  obtain ⟨id, code, title, u, pubkey, migration, nowMs, wallMs, rfl⟩ := h
  have hseat (v : Uuid) : (RoomState.new id code title u pubkey migration nowMs Cap.host
      wallMs).roster.seat v = if u = v then some ⟨.connected, true⟩ else none := by
    by_cases hv : u = v <;>
      simp [RoomState.roster, RoomState.record, RoomState.new, ParticipantRecord.seat, hv]
  refine ⟨by simp [RoomState.Keyed, RoomState.new], ⟨.connected, ?_, fun _ => by decide⟩, ?_⟩
  · rw [hseat]
    exact if_pos rfl
  · intro v st hv
    rw [hseat] at hv
    split at hv
    · rename_i huv
      exact huv.symm
    · cases hv

lemma IsNew.open {s : RoomState} (h : IsNew s) : s.state ≠ .ended := by
  obtain ⟨id, code, title, u, pubkey, migration, nowMs, wallMs, rfl⟩ := h
  simp [RoomState.new]

/-- A section keeps a room in good order. -/
lemma GoodRoom.section {env : SectionEnv} {store : Store} {s : RoomState} (hg : GoodRoom s)
    {sec : Section} {out : SectionOutcome sec.Reply} (h : sec.run env store s = some out) :
    GoodRoom out.state :=
  ⟨(Section.run_refines hg.keyed hg.host h).keyed,
    (Section.run_refines hg.keyed hg.host h).step.hostSeat hg.host⟩

/-! ### What a step can do -/

/-- Effects that may change a room, a channel or one of the registry's maps. -/
def Effect.isMajor : Effect → Bool
  | .section .. | .publish .. | .putManifest .. | .publishManifest .. | .insertRoom _
  | .insertCode .. | .insertChannel _ | .remove .. => true
  | _ => false

/-- **The cases of a step.** -/
inductive StepCase (env : Env) : Step → Prop
  /-- A write section. -/
  | section (op : Op) (inp : Input) (before : ServerState) (id : Uuid) (sec : Section)
      (s : RoomState) (out : SectionOutcome sec.Reply) (hs : before.heap.get id = some s)
      (hunheld : id ∉ before.held)
      (hrun : sec.run ⟨env.cfg, env.crates, inp.clockMs⟩ ⟨before.db, inp.faults⟩ s = some out) :
      StepCase env ⟨op, .section id sec, inp, out.reply, before, before.apply id out⟩
  /-- A new room gets its handle. -/
  | insertRoom (op : Op) (inp : Input) (before : ServerState) (s : RoomState)
      (hfree : before.heap.get s.id = none) :
      StepCase env ⟨op, .insertRoom s, inp, (), before, before.insertRoom s⟩
  /-- Its code. -/
  | insertCode (op : Op) (inp : Input) (before : ServerState) (code : String) (id : Uuid) :
      StepCase env ⟨op, .insertCode code id, inp, (), before, before.insertCode code id⟩
  /-- Its channel. -/
  | insertChannel (op : Op) (inp : Input) (before : ServerState) (id : Uuid) :
      StepCase env ⟨op, .insertChannel id, inp, (), before, before.insertChannel id⟩
  /-- A manifest is cached. -/
  | putManifest (op : Op) (inp : Input) (before : ServerState) (id : Uuid) (c : CachedManifest) :
      StepCase env ⟨op, .putManifest id c, inp, (), before, before.putManifest id c⟩
  /-- It is published, and the lock released. -/
  | publishManifest (op : Op) (inp : Input) (before : ServerState) (id : Uuid)
      (c : CachedManifest) :
      StepCase env ⟨op, .publishManifest id c, inp, (), before,
        before.publishManifest env.crates.splitPublished id c⟩
  /-- An item is sent. -/
  | publish (op : Op) (inp : Input) (before : ServerState) (id : Uuid) (item : BroadcastItem) :
      StepCase env ⟨op, .publish id item, inp, (), before, before.publish id item⟩
  /-- A room is removed from one of the registry's maps. -/
  | remove (op : Op) (inp : Input) (before : ServerState) (map : RegistryMap) (id : Uuid) :
      StepCase env ⟨op, .remove map id, inp, before.holds id map, before, before.remove map id⟩
  /-- Neither rooms nor the registry's maps change. -/
  | minor (d : Step) (hminor : d.effect.isMajor = false) (hheap : d.after.heap = d.before.heap)
      (htx : d.after.tx = d.before.tx) (hbyId : d.after.byId = d.before.byId)
      (hbyCode : d.after.byCode = d.before.byCode)
      (hcache : d.after.manifestCache = d.before.manifestCache)
      (hheld : d.after.held = d.before.held) : StepCase env d

variable {env : Env}

/-- **Every step is one of the cases.** -/
lemma step_cases {d : Step} (hd : (system env).Handled d) : StepCase env d := by
  obtain ⟨op, e, inp, r, before, after⟩ := d
  have h : Effect.handle env e inp before = some (r, after) := hd
  by_cases hb : e.benign = true
  · obtain ⟨hh, ht, hi, -, hcode, hcache, hheld⟩ := handle_benign hb h
    refine .minor _ ?_ hh ht hi hcode hcache hheld
    cases e <;> first | rfl | cases hb
  cases e with
  | «section» id sec =>
    have hunheld := handle_section_free h
    obtain ⟨s, out, hs, hout, rfl, rfl⟩ := handle_section h
    exact .section op inp before id sec s out hs hunheld hout
  | insertRoom s =>
    simp only [Effect.handle] at h
    split at h
    · cases h
    · rename_i hfree
      cases h
      exact .insertRoom op inp before s (by simpa using hfree)
  | insertCode code id =>
    cases h
    exact .insertCode op inp before code id
  | insertChannel id =>
    cases h
    exact .insertChannel op inp before id
  | publish id item =>
    cases h
    exact .publish op inp before id item
  | putManifest id c =>
    cases h
    exact .putManifest op inp before id c
  | publishManifest id c =>
    cases h
    exact .publishManifest op inp before id c
  | remove map id =>
    cases h
    exact .remove op inp before map id
  | store request =>
    cases h
    exact .minor _ rfl rfl rfl rfl rfl rfl rfl
  | _ => exact absurd rfl hb

/-- Only new rooms are inserted. -/
lemma session_insertRoom {e : Effect} {g : Session} (ha : session.allows g e) (s : RoomState)
    (he : e = .insertRoom s) : IsNew s := by
  subst he
  exact ha

lemma good_step {d : Step} (hc : StepCase env d) (hg : Good d.before)
    (hnew : ∀ s, d.effect = .insertRoom s → IsNew s) : Good d.after := by
  intro id s hs
  cases hc with
  | «section» op inp before id' sec s' out hs' _ hrun =>
    rw [ServerState.apply_heap, Heap.get_put] at hs
    split at hs
    · rw [← Option.some.inj hs]
      exact (hg id' s' hs').section hrun
    · exact hg id s hs
  | insertRoom op inp before s' hfree =>
    rw [ServerState.insertRoom_heap, Heap.get_put] at hs
    split at hs
    · rw [← Option.some.inj hs]
      exact (hnew s' rfl).good
    · exact hg id s hs
  | publish op inp before id' item => exact hg id s (by simpa using hs)
  | publishManifest op inp before id' c => exact hg id s (by simpa using hs)
  | remove op inp before map id' => exact hg id s (by simpa using hs)
  | insertCode | insertChannel | putManifest => exact hg id s hs
  | minor _ hminor hheap => exact hg id s (by rw [← hheap]; exact hs)

/-! ### The rules -/

variable {guard : List Step → Step → Prop}

/-- What the tasks of a pool remember. -/
def sessions (p : Tasks) : List Session := p.tasks.map (System.Task.ghost session fun _ => .start)

/-- **The invariant rule for the server.**  Every step starts in rooms in good order and is one its
task's memory allows. -/
theorem Run.invariant {I : List Step → ServerState → List Session → Prop}
    (hstart : I [] .empty [])
    (hspawn : ∀ h st gs, I h st gs → I h st (gs ++ [.start]))
    (hstep : ∀ h gs (i : ℕ) g d, Good d.before → I h d.before gs → gs[i]? = some g →
      session.allows g d.effect → StepCase env d → guard h d →
      I (h ++ [d]) d.after (gs.set i (session.next g d.effect d.resp)))
    {h : List Step} {p : Tasks} (r : Run env guard h p) :
    Good p.state ∧ I h p.state (sessions p) ∧
      ∀ t ∈ p.tasks, t.rest.Sat session (fun _ g => g.idle)
        (System.Task.ghost session (fun _ => .start) t) := by
  have hinv := System.Run.invariant session (fun _ => .start) (fun _ g => g.idle)
    (fun h st gs => Good st ∧ I h st gs) (program_session env)
    ⟨fun id s hs => (by cases hs), hstart⟩
    (fun h st gs _ hI => ⟨hI.1, hspawn h st gs hI.2⟩)
    (fun _ _ d _ hd => handled_answers hd)
    (fun h gs i g d hI hi ha hd hguard =>
      ⟨good_step (step_cases hd) hI.1 (session_insertRoom ha),
        hstep h gs i g d hI.1 hI.2 hi ha (step_cases hd) hguard⟩) r
  exact ⟨hinv.1.1, hinv.1.2, hinv.2⟩

/-- **Reachable rooms are in good order.** -/
theorem Run.good {h : List Step} {p : Tasks} (r : Run env guard h p) : Good p.state :=
  (Run.invariant (I := fun _ _ _ => True) trivial (fun _ _ _ _ => trivial)
    (fun _ _ _ _ _ _ _ _ _ _ _ => trivial) r).1

/-- Every step of a run is one of the cases, starts in a state some run reaches, and met the
guard. -/
theorem Run.steps {h : List Step} {p : Tasks} (r : Run env guard h p) : ∀ d ∈ h, StepCase env d ∧
    ∃ h' p', Run env guard h' p' ∧ p'.state = d.before ∧ guard h' d := fun d hd =>
  ⟨step_cases (System.Run.before r d hd).1, (System.Run.before r d hd).2⟩

/-- **The rule for invariants of single rooms.**  New rooms have the property and every section
keeps it. -/
theorem Run.room {P : RoomState → Prop} (hnew : ∀ s, IsNew s → P s)
    (hsection : ∀ h d id sec s (out : SectionOutcome sec.Reply) env' store, guard h d →
      d.effect = .section id sec → d.before.heap.get id = some s → env'.cfg = env.cfg →
      sec.run env' store s = some out → GoodRoom s → P s → P out.state)
    {h : List Step} {p : Tasks} (r : Run env guard h p) :
    ∀ id s, p.state.heap.get id = some s → P s := by
  refine (Run.invariant (I := fun _ st _ => ∀ id s, st.heap.get id = some s → P s)
    (fun id s hs => by cases hs) (fun _ _ _ hI => hI) (fun h gs i g d hgood hI _ ha hc hguard => ?_)
    r).2.1
  intro id s hs
  cases hc with
  | «section» op inp before id' sec s' out hs' _ hrun =>
    rw [ServerState.apply_heap, Heap.get_put] at hs
    split at hs
    · rw [← Option.some.inj hs]
      exact hsection h _ id' sec s' out _ _ hguard rfl hs' rfl hrun (hgood id' s' hs')
        (hI id' s' hs')
    · exact hI id s hs
  | insertRoom op inp before s' hfree =>
    rw [ServerState.insertRoom_heap, Heap.get_put] at hs
    split at hs
    · rw [← Option.some.inj hs]
      exact hnew s' ha
    · exact hI id s hs
  | publish op inp before id' item => exact hI id s (by simpa using hs)
  | publishManifest op inp before id' c => exact hI id s (by simpa using hs)
  | remove op inp before map id' => exact hI id s (by simpa using hs)
  | insertCode | insertChannel | putManifest => exact hI id s hs
  | minor _ hminor hheap => exact hI id s (by rw [← hheap]; exact hs)

/-! ### Guards on sections -/

/-- Whether a step is no section, or its section on the room it finds passes the test. -/
def Step.sectionOk (d : Step) (test : RoomState → Section → Bool) : Bool :=
  match d.effect with
  | .section id sec => (d.before.heap.get id).all fun s => test s sec
  | _ => true

lemma Step.sectionOk_section {d : Step} {test : RoomState → Section → Bool} {id : Uuid}
    {sec : Section} {s : RoomState} (h : d.sectionOk test = true) (he : d.effect = .section id sec)
    (hs : d.before.heap.get id = some s) : test s sec = true := by
  simpa [Step.sectionOk, he, hs] using h

end Locast.Server
