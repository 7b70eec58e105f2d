import Locast.Rooms.DrawingOrder
import Locast.Server.RoomLife

/-!
# The logs of a room

What a subscriber finds on the channel of a room, in every run of the server from a boot: its
playback commands and its drawing events, each numbered without a gap, and the state they come to.
What a room takes before its creation has inserted its channel is on no channel.
-/

namespace Locast.Server

open Locast.Lib Locast.Protocol Locast.Rooms

variable {env : Env} {guard : List Step → Step → Prop} {h : List Step} {p : Tasks} {R : Uuid}

/-- Every run from a boot is a life of each room. -/
lemma lives_of_boot {db : Db} (hdb : db.Sound) (wallMs : Uuid → ℕ)
    (r : RunFrom env guard (boot db wallMs) h p) (R : Uuid) :
    Lives env (boot db wallMs) R h p.state :=
  lives_of_run r (boot_restored hdb wallMs R).1 fun s hs => fresh_boot db wallMs R s hs

/-- What is no item of a log is of no account to one that skips it. -/
lemma logged_filter {items : List BroadcastItem} {keep : BroadcastItem → Bool}
    (hkeep : ∀ i, keep i = true → i.payload.isRoster = false ∧ i.payload.isRelayed = false ∧
      i.payload.isManifest = false) :
    (logged items).filter keep = items.filter keep := by
  rw [logged, List.filter_filter]
  refine List.filter_congr fun i _ => ?_
  cases hi : keep i with
  | false => rfl
  | true => simp [hkeep i hi]

/-! ### Playback -/

/-- The commands on the channel of `R`. -/
def commandsOn (R : Uuid) (h : List Step) : List PlaybackAcceptedEvent :=
  (sentTo R h).filterMap (·.payload.playback)

/-- The joins and the accepted commands of `R`. -/
def playbackTurns (R : Uuid) (h : List Step) : List PlaybackTurn :=
  (sectionsOn R h).filterMap fun x => x.1.playbackTurn x.2

/-- The commands that `R` accepted. -/
def acceptedIn (R : Uuid) (h : List Step) : List PlaybackAcceptedEvent :=
  commands (playbackTurns R h)

lemma acceptedIn_append (h h' : List Step) :
    acceptedIn R (h ++ h') = acceptedIn R h ++ acceptedIn R h' := by
  simp only [acceptedIn, playbackTurns, sectionsOn, List.filterMap_append, commands]

/-- **The playback of `R` is in order.** -/
structure PlaybackInOrder (R : Uuid) (h : List Step) (p : Tasks) : Prop where
  /-- What is accepted is on the channel, in the order in which it was accepted, but for what was
  accepted before there was a channel. -/
  published : acceptedIn R h = acceptedIn R (untold R h) ++ commandsOn R h
  /-- A room that was not created in the run has its channel. -/
  told : (∀ d ∈ h, d.creates R = false) → acceptedIn R (untold R h) = []
  /-- The numbers of the room are `1, 2, …`. -/
  numbered : (acceptedIn R h).map (·.serverSeq) = (List.range (acceptedIn R h).length).map (· + 1)
  /-- The numbers of a sender are `1, 2, …` after each join. -/
  own : ∀ u, (sinceJoin u (playbackTurns R h)).map (·.monotonicSeq) =
    (List.range (sinceJoin u (playbackTurns R h)).length).map fun i => min (i + 1) u64Max
  /-- A refused command changes no room and is on no channel. -/
  refused : ∀ d ∈ h, ∀ u pubkey payload e,
    d.sectionOn R = some ⟨.playbackCmd u pubkey payload, .error e⟩ →
      ∀ R', d.after.heap.get R' = d.before.heap.get R' ∧ d.sent R' = []
  /-- Until the room ends, its snapshot is what the commands come to. -/
  snapshot : ∀ s, p.state.heap.get R = some s →
    s.playbackSnapshot = if s.state = .ended then none else snapshotOf (acceptedIn R h)

lemma commandsOn_eq_logged :
    commandsOn R h = (logged (sentTo R h)).filterMap (·.payload.playback) := by
  rw [logged, List.filterMap_filter, commandsOn]
  congr 1
  funext i
  cases i.payload <;> rfl

/-- What a section accepted is what its turn accepted. -/
lemma accepted_eq_event (sec : Section) (reply : sec.Reply) :
    sec.accepted reply = (sec.playbackTurn reply).bind PlaybackTurn.event := by
  cases sec with
  | join => cases reply <;> rfl
  | playbackCmd => cases reply <;> rfl
  | _ => rfl

lemma playback_of_logged (t : Turn) :
    (Turn.logged t).filterMap (·.payload.playback) = (t.sec.accepted t.out.reply).toList := by
  have hplayback := (Section.run_framed t.ran).playback
  have hall : ∀ items : List BroadcastItem, (logged items).filterMap (·.payload.playback) =
      items.filterMap (·.payload.playback) := by
    intro items
    rw [logged, List.filterMap_filter]
    congr 1
    funext i
    cases i.payload <;> rfl
  rw [Turn.logged, hall, List.filterMap_map]
  exact hplayback

/-- A room that has ended takes no turn. -/
lemma event_of_ended {t : Turn} (hended : t.before.state = .ended) :
    t.playbackTurn.bind PlaybackTurn.event = none := by
  have heffect := Section.run_turn t.ran
  rw [← Turn.playbackTurn] at heffect
  cases hturn : t.playbackTurn with
  | none => rfl
  | some turn =>
    rw [hturn] at heffect
    cases heffect with
    | joined => rfl
    | accepted e h haccepts => exact absurd hended (accepts_ne_ended haccepts).1

lemma commands_of_turns (turns : List Turn) : commands (turns.filterMap Turn.playbackTurn) =
    turns.flatMap fun t => (t.playbackTurn.bind PlaybackTurn.event).toList := by
  induction turns with
  | nil => rfl
  | cons t turns ih =>
    rw [List.flatMap_cons, ← ih]
    cases hturn : t.playbackTurn with
    | none => simp [hturn]
    | some turn =>
      rw [List.filterMap_cons_some hturn]
      cases turn <;> rfl

section Life

variable {st₀ st : ServerState} {s₀ s₁ s : RoomState} {early turns late : List Turn}

lemma LifeOf.playbackTurns_eq (hl : LifeOf env st₀ R h st s₀ s₁ s early turns late) :
    playbackTurns R h = (early ++ turns ++ late).filterMap Turn.playbackTurn := by
  rw [playbackTurns, hl.sections, List.filterMap_map]
  rfl

/-- What was accepted before there was a channel. -/
lemma LifeOf.acceptedIn_untold (hl : LifeOf env st₀ R h st s₀ s₁ s early turns late) :
    acceptedIn R (untold R h) = commands (early.filterMap Turn.playbackTurn) := by
  have hlate : (late.flatMap fun t => (t.playbackTurn.bind PlaybackTurn.event).toList) = [] :=
    List.flatMap_eq_nil_iff.2 fun t ht => by rw [event_of_ended (hl.ended t ht), Option.toList_none]
  have hturns : playbackTurns R (untold R h) = (early ++ late).filterMap Turn.playbackTurn := by
    rw [playbackTurns, hl.unheard, List.filterMap_map]
    rfl
  rw [acceptedIn, hturns, commands_of_turns, commands_of_turns, List.flatMap_append, hlate,
    List.append_nil]

/-- The commands on the channel are those accepted while it was there. -/
lemma LifeOf.published (hl : LifeOf env st₀ R h st s₀ s₁ s early turns late) :
    acceptedIn R h = acceptedIn R (untold R h) ++ commandsOn R h := by
  have hlate : (late.flatMap fun t => (t.playbackTurn.bind PlaybackTurn.event).toList) = [] :=
    List.flatMap_eq_nil_iff.2 fun t ht => by rw [event_of_ended (hl.ended t ht), Option.toList_none]
  rw [hl.acceptedIn_untold, acceptedIn, hl.playbackTurns_eq, commands_of_turns, commands_of_turns,
    commandsOn_eq_logged, hl.items, List.flatMap_append, List.flatMap_append, hlate,
      List.append_nil,
    List.filterMap_flatMap]
  refine congrArg _ (List.flatMap_congr fun t _ => ?_)
  rw [playback_of_logged, accepted_eq_event, Turn.playbackTurn]

end Life

/-- A refused command. -/
lemma quiet_of_refused {d : Step} (hd : (system env).Handled d) {u : Uuid} {pubkey : PubKey}
    {payload : PlaybackCommandPayload} {e : PlaybackError}
    (he : d.sectionOn R = some ⟨.playbackCmd u pubkey payload, .error e⟩) (R' : Uuid) :
    d.after.heap.get R' = d.before.heap.get R' ∧ d.sent R' = [] := by
  have hc := step_cases hd
  cases hc with
  | «section» op inp before id sec s out hs _ hrun =>
    simp only [Step.sectionOn] at he
    split at he
    · obtain ⟨rfl, hreply⟩ := Sigma.mk.inj (Option.some.inj he)
      replace hreply := eq_of_heq hreply
      cases hrun
      have hid := Heap.get_id hs
      rw [sent_section, ServerState.apply_heap, Heap.get_put]
      rcases playbackLocked_spec s payload u pubkey inp.clockMs with ⟨e', hr⟩ | ⟨hn, hr⟩
      · simp only [hr]
        refine ⟨?_, by simp [ServerState.itemsTo]⟩
        split
        · rename_i hR
          rw [hR, hid, hs]
        · rfl
      · simp [hr] at hreply
    · cases he
  | minor _ hminor =>
    obtain ⟨op, eff, inp, resp, before, after⟩ := d
    cases eff <;> first | cases he | cases hminor
  | _ => cases he

/-- The commands of `R` in a run from a boot: none yet, or those of the room's life. -/
lemma commands_of_boot {db : Db} (hdb : db.Sound) (wallMs : Uuid → ℕ)
    (r : RunFrom env guard (boot db wallMs) h p) (R : Uuid) :
    (commandsOn R h = [] ∧ playbackTurns R h = [] ∧ acceptedIn R (untold R h) = [] ∧
        p.state.heap.get R = none) ∨
      ∃ s₀ s turns, s₀.Unplayed ∧ p.state.heap.get R = some s ∧
        RoomRun (Turn.ofEnv env) s₀ turns s ∧
        playbackTurns R h = turns.filterMap Turn.playbackTurn ∧
        acceptedIn R h = acceptedIn R (untold R h) ++ commandsOn R h := by
  rcases lives_of_boot hdb wallMs r R with hno | ⟨s₀, s₁, s, early, turns, late, hl⟩
  · refine .inl ⟨?_, ?_, ?_, hno.room⟩
    · rw [commandsOn_eq_logged, hno.items]
      rfl
    · rw [playbackTurns, hno.sections]
      rfl
    · rw [acceptedIn, playbackTurns, hno.untold]
      rfl
  · have hrun := hl.before.append hl.run
    rw [← List.append_assoc] at hrun
    exact .inr ⟨s₀, s, early ++ turns ++ late, hl.fresh.unplayed, hl.room, hrun,
      hl.playbackTurns_eq, hl.published⟩

/-- A room that was not created has accepted nothing without a channel. -/
lemma untold_of_uncreated {db : Db} (hdb : db.Sound) (wallMs : Uuid → ℕ)
    (r : RunFrom env guard (boot db wallMs) h p) (hmade : ∀ d ∈ h, d.creates R = false) :
    acceptedIn R (untold R h) = [] := by
  have hzero : tally (Step.creates R) h = 0 :=
    List.countP_eq_zero.2 fun d hd => by simp [hmade d hd]
  rcases lives_of_boot hdb wallMs r R with hno | ⟨s₀, s₁, s, early, turns, late, hl⟩
  · rw [acceptedIn, playbackTurns, hno.untold]
    rfl
  · rw [hl.acceptedIn_untold, hl.made hzero]
    rfl

/-- **Playback is in order** in every run from a boot, for every room. -/
theorem playback_in_order (env : Env) {db : Db} (hdb : db.Sound) (wallMs : Uuid → ℕ)
    {h : List Step} {p : Tasks} (r : RunFrom env anyStep (boot db wallMs) h p) (R : Uuid) :
    PlaybackInOrder R h p := by
  have hrefused (d : Step) (hd : d ∈ h) (u pubkey payload e)
      (he : d.sectionOn R = some ⟨.playbackCmd u pubkey payload, .error e⟩) (R' : Uuid) :=
    quiet_of_refused (RunFrom.handled r d hd) he R'
  have htold := untold_of_uncreated (R := R) hdb wallMs r
  rcases commands_of_boot hdb wallMs r R with
    ⟨hcommands, hturns, huntold, hroom⟩ | ⟨s₀, s, turns, h₀, hroom, hrun, hturns, hcommands⟩
  · have hnone : acceptedIn R h = [] := by rw [acceptedIn, hturns]; rfl
    refine ⟨by rw [hnone, huntold, hcommands]; rfl, htold, by rw [hnone]; rfl,
      fun u => by rw [hturns]; rfl, hrefused, fun s hs => ?_⟩
    rw [hroom] at hs
    cases hs
  · have hI := hrun.commandsOf h₀
    rw [← hturns] at hI
    refine ⟨hcommands, htold, hI.seqs, hI.own, hrefused, fun s' hs' => ?_⟩
    obtain rfl : s = s' := Option.some.inj (hroom.symm.trans hs')
    exact hI.snapshot_eq

/-! ### Drawing -/

/-- The drawing events on the channel of `R`. -/
def drawingsOn (R : Uuid) (h : List Step) : List BroadcastItem :=
  (sentTo R h).filter (·.payload.isDrawing)

/-- The sequence `R` has where its channel starts: at the start of the run, or where it is
inserted. -/
structure StartsAt (st₀ : ServerState) (R : Uuid) (h : List Step) (start : ℕ) : Prop where
  restored : ∀ s, st₀.heap.get R = some s → s.drawing.seq = start
  opened : ∀ d ∈ h, d.opens R = true → ∀ s, d.before.heap.get R = some s → s.drawing.seq = start

/-- **The drawing of `R` is in order**, in a run from `st₀`. -/
structure DrawingInOrder (st₀ : ServerState) (R : Uuid) (h : List Step) (p : Tasks) : Prop where
  /-- The events are numbered one after the other from where the channel starts, and the room is at
  the last of them as long as it has its channel. -/
  numbered : ∃ start, StartsAt st₀ R h start ∧
    (drawingsOn R h).map (·.seq) = (List.range (drawingsOn R h).length).map (start + 1 + ·) ∧
      ∀ s, p.state.heap.get R = some s → (p.state.tx.get R).isSome →
        s.drawing.seq = start + (drawingsOn R h).length
  /-- When nothing was drawn before there was a channel, and no more strokes were ended than a room
  remembers, a snapshot shows what a client shows that got every event. -/
  shown : (∀ d ∈ h, d.opens R = true → ∀ s, d.before.heap.get R = some s →
      ∃ wallMs, s.drawing = .new wallMs) →
    ∀ s, p.state.heap.get R = some s → (p.state.tx.get R).isSome →
      endings (drawingsOn R h) ≤ maxCommittedStrokes →
        Shows (replay (drawingsOn R h)) s.drawing.snapshot

lemma drawingsOn_eq : drawingsOn R h = (logged (sentTo R h)).filter (·.payload.isDrawing) := by
  refine (logged_filter fun i hi => ?_).symm
  cases hp : i.payload <;> simp_all [WirePayload.isDrawing, WirePayload.isRoster,
    WirePayload.isRelayed, WirePayload.isManifest]

lemma drawings_of_logged (turns : List Turn) :
    (turns.flatMap Turn.logged).filter (·.payload.isDrawing) = Rooms.published turns := by
  rw [List.filter_flatMap, Rooms.published]
  refine List.flatMap_congr fun t _ => logged_filter fun i hi => ?_
  cases hp : i.payload <;> simp_all [WirePayload.isDrawing, WirePayload.isRoster,
    WirePayload.isRelayed, WirePayload.isManifest]

/-- **Drawing is in order** in every run from a boot, for every room. -/
theorem drawing_in_order (env : Env) {db : Db} (hdb : db.Sound) (wallMs : Uuid → ℕ)
    {h : List Step} {p : Tasks} (r : RunFrom env anyStep (boot db wallMs) h p) (R : Uuid) :
    DrawingInOrder (boot db wallMs) R h p := by
  rcases lives_of_boot hdb wallMs r R with hno | ⟨s₀, s₁, s, early, turns, late, hl⟩
  · have hnil : drawingsOn R h = [] := by rw [drawingsOn_eq, hno.items]; rfl
    have habsent (s : RoomState) (hs : p.state.heap.get R = some s) : False := by
      rw [hno.room] at hs
      cases hs
    have hstarts : StartsAt (boot db wallMs) R h 0 := by
      refine ⟨fun s hs => ?_, fun d hd ho => ?_⟩
      · rw [hno.start] at hs
        cases hs
      · have hpos : 0 < tally (Step.opens R) h := List.countP_pos_iff.2 ⟨d, hd, ho⟩
        have := hno.opens
        omega
    exact ⟨⟨0, hstarts, by rw [hnil]; rfl, fun s hs => (habsent s hs).elim⟩,
      fun _ s hs => (habsent s hs).elim⟩
  have hdrawings : drawingsOn R h = Rooms.published turns := by
    rw [drawingsOn_eq, hl.items, drawings_of_logged]
  have hb₁ : s₁.drawing.Bookkept := by
    obtain ⟨wallMs, hnew⟩ := hl.fresh.undrawn
    exact hl.before.bookkept (hnew ▸ .new wallMs)
  obtain ⟨s', hrun⟩ := hl.run.earlier
  have hstarts : StartsAt (boot db wallMs) R h s₁.drawing.seq := by
    refine ⟨fun t ht => by rw [hl.restored t ht], fun d hd ho t ht => ?_⟩
    rw [Option.some.inj (ht.symm.trans (hl.opened d hd ho))]
  refine ⟨⟨s₁.drawing.seq, hstarts, by rw [hdrawings]; exact (hrun.seqs hb₁).1, fun t ht htx => ?_⟩,
    fun hundrawn t ht htx hfew => ?_⟩
  · obtain rfl : s = t := Option.some.inj (hl.room.symm.trans ht)
    have hlife := hl.run
    rw [hl.current htx, List.append_nil] at hlife
    rw [hdrawings, (hlife.seqs hb₁).2]
  · obtain rfl : s = t := Option.some.inj (hl.room.symm.trans ht)
    have hlife := hl.run
    rw [hl.current htx, List.append_nil] at hlife
    rw [hdrawings] at hfew ⊢
    refine hlife.shows_of_endings ?_ hfew
    -- the room gets its channel undrawn: it is restored, or nothing was drawn while it had none
    by_cases hopened : ∃ d ∈ h, d.opens R = true
    · obtain ⟨d, hd, ho⟩ := hopened
      exact hundrawn d hd ho s₁ (hl.opened d hd ho)
    · have hearly : early = [] := hl.early_of_unopened htx fun d hd => by
        by_contra ho
        exact hopened ⟨d, hd, by simpa using ho⟩
      rw [hl.before.eq_of_nil hearly]
      exact hl.fresh.undrawn

/-! ### A host who plays and draws after a boot -/

namespace Watched

/-- A command of the host of the room `1`. -/
def command (body : Body) : Op := .dispatch ⟨some 1, none, body, 0⟩ 1 (PubKey.filled 0)

def playback (action : PlaybackAction) (monotonicSeq : ℕ) : Op :=
  command (.playbackCmd (.ok ⟨action, monotonicSeq, 0, 0⟩))

/-- The host plays, clears, pauses and clears again. -/
def moves : List (Move Op Input) :=
  .spawn (playback .play 1) :: steps 0 7 (.plain [1] 0 "") ++
    .spawn (command .strokeClear) :: steps 1 9 (.plain [1] 0 "") ++
    .spawn (playback .pause 2) :: steps 2 7 (.plain [1] 0 "") ++
    .spawn (command .strokeClear) :: steps 3 9 (.plain [1] 0 "")

lemma played_moves : (playedFrom .plain (boot Republished.db fun _ => 0) moves).isSome = true := by
  decide +kernel

end Watched

theorem playback_in_order_watched : ∃ h p,
    RunFrom .plain anyStep (boot Republished.db fun _ => 0) h p ∧ PlaybackInOrder 1 h p ∧
      (commandsOn 1 h).map (·.serverSeq) = [1, 2] := by
  have r : RunFrom .plain anyStep (boot Republished.db fun _ => 0) _ _ :=
    runFrom_of_played Watched.played_moves fun _ _ => trivial
  exact ⟨_, _, r, playback_in_order .plain Republished.db_sound _ r 1, by decide +kernel⟩

theorem drawing_in_order_watched : ∃ h p,
    RunFrom .plain anyStep (boot Republished.db fun _ => 0) h p ∧
      DrawingInOrder (boot Republished.db fun _ => 0) 1 h p ∧
      (drawingsOn 1 h).map (·.seq) = [1, 2] := by
  have r : RunFrom .plain anyStep (boot Republished.db fun _ => 0) _ _ :=
    runFrom_of_played Watched.played_moves fun _ _ => trivial
  exact ⟨_, _, r, drawing_in_order .plain Republished.db_sound _ r 1, by decide +kernel⟩

end Locast.Server
