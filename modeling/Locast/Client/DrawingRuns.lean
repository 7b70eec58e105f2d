import Locast.Client.DrawingSheet
import Mathlib.Tactic.Linarith

/-!
# The runs of a drawing session (`drawing/drawingSession.ts`)

The queue keeps the order and its count whatever is called, and the sheet says what the sends of a
stroke are.
-/

namespace Locast.Client.Drawing

open Locast.Lib

namespace DrawingSession

variable {s s' : DrawingSession} {t : QueuedSend}

/-- The strokes and their sends. -/
def sheet (s : DrawingSession) : Sheet := ⟨s.strokes, s.active, s.activeSeq, s.pendingPoint, s.all⟩

/-! ### What is kept -/

/-- The queue has its sends in order and in number, and a send was handed over if its stroke has not
failed. -/
structure QueueOk (s : DrawingSession) : Prop where
  order : s.all.Sublist s.queued
  onlyPoints : s.all.filter (!·.input.isPoint) = s.queued.filter (!·.input.isPoint)
  count : s.queuedPoints = s.tasks.countP (·.input.isPoint)
  bound : s.queuedPoints ≤ MAX_QUEUED_POINTS
  sent : ∀ x ∈ s.started, x.2 = s.sends x.1
  failed : ∀ i st, s.strokes[i]? = some st → st.failed = true → ∃ x ∈ s.started,
    x.1.ofStroke i = true

/-- One send at most has not settled, the one that runs. -/
structure OneRuns (s : DrawingSession) : Prop where
  length : s.started.length = s.settled + s.running.isSome.toNat
  last : ∀ x ∈ s.running, s.started.getLast? = some x

/-- The frames that queued a point were apart, and none is later than the last flush. -/
structure Spaced (s : DrawingSession) : Prop where
  spaced : s.frameFlushes.Pairwise fun t t' => MIN_FLUSH_INTERVAL_MS ≤ t' - t
  flushed : ∀ t ∈ s.frameFlushes, ∃ last ∈ s.lastFlushMs, t ≤ last

/-- What every step keeps. -/
structure Inv (s : DrawingSession) : Prop where
  queue : s.QueueOk
  runs : s.OneRuns
  busy : s.running = none → s.tasks = []
  rate : s.Spaced
  sheet : s.sheet.Inv

lemma inv_start : start.Inv where
  queue := ⟨List.Sublist.refl _, rfl, rfl, Nat.zero_le _, fun x hx => absurd hx List.not_mem_nil,
    fun i st hst => by
    simp [start] at hst⟩
  runs := ⟨rfl, fun x hx => by cases hx⟩
  busy := fun _ => rfl
  rate := ⟨List.Pairwise.nil, fun t ht => absurd ht List.not_mem_nil⟩
  sheet := {
    drawn := fun i st hst => by simp [sheet, start] at hst
    closed := fun i st hst => by simp [sheet, start] at hst
    active := fun a ha => by cases ha
    trailing := fun i st hst => by simp [sheet, start] at hst
    newest := fun a ha => by cases ha
    linked := ⟨fun t ht => absurd ht List.not_mem_nil, fun t ht => absurd ht List.not_mem_nil,
      List.Pairwise.nil⟩ }

/-! ### The pump -/

lemma next_nil (h : s.tasks = []) : s.next = { s with running := none } := by rw [next, h]

lemma next_cons {rest : List QueuedSend} (h : s.tasks = t :: rest) :
    s.next = { s with
      tasks := rest
      queuedPoints := if t.input.isPoint then s.queuedPoints - 1 else s.queuedPoints
      running := some (t, s.sends t)
      started := s.started ++ [(t, s.sends t)] } := by rw [next, h]

lemma sheet_next : s.next.sheet = s.sheet := by
  cases h : s.tasks with
  | nil => rw [next_nil h]; rfl
  | cons t rest =>
    rw [next_cons h, sheet, sheet, all, all, h]
    simp

lemma QueueOk.next (h : s.QueueOk) : s.next.QueueOk := by
  cases htasks : s.tasks with
  | nil =>
    rw [next_nil htasks]
    exact { h with }
  | cons t rest =>
    have hall : s.next.all = s.all := congrArg Sheet.sends sheet_next
    have hcount := h.count
    rw [htasks, List.countP_cons] at hcount
    rw [next_cons htasks] at hall ⊢
    exact {
      order := hall ▸ h.order
      onlyPoints := hall ▸ h.onlyPoints
      count := by
        dsimp only
        split_ifs at hcount ⊢ <;> omega
      bound := by
        have := h.bound
        dsimp only
        split_ifs <;> omega
      sent := by
        intro x hx
        rcases List.mem_append.1 hx with hx | hx
        · exact h.sent x hx
        · rw [List.mem_singleton.1 hx]
          rfl
      failed := by
        intro i st hst hfailed
        obtain ⟨x, hx, hof⟩ := h.failed i st hst hfailed
        exact ⟨x, List.mem_append_left _ hx, hof⟩ }

lemma oneRuns_next (h : s.started.length = s.settled) :
    s.next.OneRuns ∧ (s.next.running = none → s.next.tasks = []) := by
  cases htasks : s.tasks with
  | nil =>
    rw [next_nil htasks]
    exact ⟨⟨h, fun x hx => by cases hx⟩, fun _ => htasks⟩
  | cons t rest =>
    rw [next_cons htasks]
    refine ⟨⟨by simp [h], fun x hx => ?_⟩, fun hc => by cases hc⟩
    cases hx
    exact List.getLast?_concat

lemma sheet_pump : s.pump.sheet = s.sheet := by
  rw [pump]
  split
  · rfl
  · exact sheet_next

lemma QueueOk.pump (h : s.QueueOk) : s.pump.QueueOk := by
  rw [DrawingSession.pump]
  split
  · exact h
  · exact h.next

lemma OneRuns.pump (h : s.OneRuns) :
    s.pump.OneRuns ∧ (s.pump.running = none → s.pump.tasks = []) := by
  rw [DrawingSession.pump]
  by_cases hrun : s.running.isSome = true
  · rw [if_pos hrun]
    refine ⟨h, fun hnone => ?_⟩
    rw [hnone] at hrun
    cases hrun
  · rw [if_neg hrun]
    refine oneRuns_next ?_
    have := h.length
    rw [Bool.not_eq_true] at hrun
    rwa [hrun] at this

/-! ### The queue -/

lemma QueueOk.pushOther (h : s.QueueOk) (ht : t.input.isPoint = false) : (s.push t).QueueOk where
  order := by
    have hall : (s.push t).all = s.all ++ [t] := (List.append_assoc _ _ _).symm
    rw [hall]
    exact h.order.append (List.Sublist.refl _)
  onlyPoints := by
    have hall : (s.push t).all = s.all ++ [t] := (List.append_assoc _ _ _).symm
    rw [hall, List.filter_append, h.onlyPoints, push, List.filter_append]
  count := by
    rw [push, List.countP_append, List.countP_singleton, ht]
    exact h.count
  bound := h.bound
  sent := h.sent
  failed := h.failed

lemma QueueOk.pushPoint (h : s.QueueOk) (ht : t.input.isPoint = true)
    (hroom : s.queuedPoints < MAX_QUEUED_POINTS) :
    (push t { s with queuedPoints := s.queuedPoints + 1 }).QueueOk where
  order := by
    have hall : (s.push t).all = s.all ++ [t] := (List.append_assoc _ _ _).symm
    exact (hall ▸ h.order.append (List.Sublist.refl [t]) : (s.push t).all.Sublist (s.push t).queued)
  onlyPoints := by
    have hall : (s.push t).all = s.all ++ [t] := (List.append_assoc _ _ _).symm
    have : (s.push t).all.filter (!·.input.isPoint) = (s.push t).queued.filter
        (!·.input.isPoint) := by
      rw [hall, List.filter_append, h.onlyPoints, push, List.filter_append]
    exact this
  count := by
    rw [push, List.countP_append, List.countP_singleton, ht]
    exact congrArg (· + 1) h.count
  bound := hroom
  sent := h.sent
  failed := h.failed

/-- Room is made by taking out the oldest point, if it must be. -/
lemma QueueOk.makeRoom_cases (h : s.QueueOk) :
    (s.queuedPoints < MAX_QUEUED_POINTS ∧ s.makeRoom = s) ∨
      ∃ before q after, s.tasks = before ++ q :: after ∧ (∀ t ∈ before, t.input.isPoint = false) ∧
        q.input.isPoint = true ∧ MAX_QUEUED_POINTS ≤ s.queuedPoints ∧
        s.makeRoom = { s with tasks := before ++ after, queuedPoints := s.queuedPoints - 1 } := by
  rcases lt_or_ge s.queuedPoints MAX_QUEUED_POINTS with hlt | hge
  · exact .inl ⟨hlt, if_neg (not_le.2 hlt)⟩
  · have hpos : 0 < s.tasks.countP (·.input.isPoint) := by
      rw [← h.count]
      exact lt_of_lt_of_le (by decide) hge
    obtain ⟨t, ht, htp⟩ := List.countP_pos_iff.1 hpos
    obtain ⟨q, before, after, hbefore, hq, htasks, herase⟩ :=
      List.exists_of_eraseP (p := fun t : QueuedSend => t.input.isPoint) ht htp
    refine .inr ⟨before, q, after, htasks, fun t ht => by simpa using hbefore t ht, hq, hge, ?_⟩
    rw [makeRoom, if_pos hge, dropOldest, if_pos (List.any_eq_true.2 ⟨t, ht, htp⟩), herase]

lemma QueueOk.makeRoom (h : s.QueueOk) :
    s.makeRoom.QueueOk ∧ s.makeRoom.queuedPoints < MAX_QUEUED_POINTS := by
  rcases h.makeRoom_cases with ⟨hlt, hs⟩ | ⟨before, q, after, htasks, hbefore, hq, hge, hs⟩
  · rw [hs]
    exact ⟨h, hlt⟩
  · have hall : s.all = (s.started.map (·.1) ++ before) ++ q :: after := by
      rw [all, htasks, List.append_assoc]
    have hcount := h.count
    have horder := h.order
    have honly := h.onlyPoints
    rw [htasks, List.countP_append, List.countP_cons, if_pos hq] at hcount
    rw [hall] at horder
    rw [hall, List.filter_append, List.filter_cons_of_neg (by simp [hq])] at honly
    rw [hs]
    have hbound := h.bound
    refine ⟨{ h with order := ?_, onlyPoints := ?_, count := ?_, bound := ?_ }, ?_⟩
    · rw [all, ← List.append_assoc]
      exact ((List.sublist_cons_self q after).append_left _).trans horder
    · rw [all, ← List.append_assoc, List.filter_append]
      exact honly
    · rw [List.countP_append]
      dsimp only
      omega
    · exact (Nat.sub_le _ _).trans hbound
    · dsimp only
      omega

lemma Spaced.next (h : s.Spaced) : s.next.Spaced := by
  cases htasks : s.tasks with
  | nil =>
    rw [next_nil htasks]
    exact ⟨h.spaced, h.flushed⟩
  | cons t rest =>
    rw [next_cons htasks]
    exact ⟨h.spaced, h.flushed⟩

lemma Spaced.pump (h : s.Spaced) : s.pump.Spaced := by
  rw [DrawingSession.pump]
  split
  · exact h
  · exact h.next

lemma all_push (t : QueuedSend) (s : DrawingSession) : (s.push t).all = s.all ++ [t] :=
  (List.append_assoc _ _ _).symm

/-- A send that is not a point is queued. -/
lemma inv_enqueue (ht : t.input.isPoint = false) (hqueue : s.QueueOk) (hruns : s.OneRuns)
    (hrate : s.Spaced) (hsheet : Sheet.Inv { s.sheet with sends := s.all ++ [t] }) :
    (s.enqueue t).Inv := by
  have hpush : (s.push t).OneRuns := ⟨hruns.length, hruns.last⟩
  have hspaced : (s.push t).Spaced := ⟨hrate.spaced, hrate.flushed⟩
  have hall : (s.push t).sheet = { s.sheet with sends := s.all ++ [t] } := by
    rw [sheet, all_push]
    rfl
  rw [enqueue, ht, if_neg Bool.false_ne_true]
  exact ⟨(hqueue.pushOther ht).pump, hpush.pump.1, hpush.pump.2, hspaced.pump,
    by rw [sheet_pump, hall]; exact hsheet⟩

/-! ### A flush -/

/-- A full queue that can spare its oldest point. -/
lemma QueueOk.thinned (h : s.QueueOk) (hsheet : s.sheet.Inv)
    (hspare : MAX_QUEUED_POINTS ≤ s.queuedPoints → s.Spare) : s.sheet.Thinned s.makeRoom.all := by
  rcases h.makeRoom_cases with ⟨-, hs⟩ | ⟨before, q, after, htasks, hbefore, hq, hge, hs⟩
  · rw [hs]
    exact s.sheet.thinned_refl
  · have hall : s.sheet.sends = (s.started.map (·.1) ++ before) ++ q :: after := by
      rw [DrawingSession.sheet, all, htasks, List.append_assoc]
    have hfind : s.tasks.find? (·.input.isPoint) = some q := by
      rw [htasks, List.find?_append, List.find?_eq_none.2 fun t ht => by
        simp [hbefore t ht], Option.none_or]
      exact List.find?_cons_of_pos hq
    rw [hs, all, ← List.append_assoc]
    refine hsheet.thinned_drop hall hq ?_
    rcases hspare hge q hfind with hactive | hfail | hcount
    · exact .inl hactive
    · refine .inr (.inl fun i st hst hof => ?_)
      obtain ⟨a, ha, rfl⟩ := ofStroke_eq_true.1 hof
      rw [Option.mem_def] at ha
      have hst' : s.strokes[a.ref]? = some st := hst
      rw [failedOf, ha, Option.any_some, hst'] at hfail
      exact hfail
    · refine .inr (.inr ?_)
      have hnone : before.countP (fun t => t.input.isPoint && t.stroke = q.stroke) = 0 :=
        List.countP_eq_zero.2 fun t ht => by simp [hbefore t ht]
      rw [htasks, List.countP_append, hnone, Nat.zero_add, List.countP_cons] at hcount
      have hpos : 0 < after.countP (fun t => t.input.isPoint && t.stroke = q.stroke) := by
        split_ifs at hcount <;> omega
      obtain ⟨t, ht, htq⟩ := List.countP_pos_iff.1 hpos
      rw [Bool.and_eq_true, decide_eq_true_eq] at htq
      exact ⟨t, ht, htq.2, htq.1⟩

lemma makeRoom_eq (s : DrawingSession) :
    s.makeRoom = { s with tasks := s.makeRoom.tasks, queuedPoints := s.makeRoom.queuedPoints } := by
  rw [makeRoom]
  split
  · rw [dropOldest]
    split <;> rfl
  · rfl

lemma makeRoom_tasks (htasks : s'.tasks = s.tasks) (hcount : s'.queuedPoints = s.queuedPoints) :
    s'.makeRoom.tasks = s.makeRoom.tasks := by
  rw [makeRoom, makeRoom, dropOldest, dropOldest, htasks, hcount]
  split_ifs
  · rfl
  · exact htasks
  · exact htasks

lemma makeRoom_started (s : DrawingSession) : s.makeRoom.started = s.started := by rw [makeRoom_eq]

/-- The pending point is queued. -/
lemma Inv.flushPoint (h : s.Inv) {a : ActiveStroke} (ha : s.active = some a)
    {p : StrokePointPayload} (hp : s.pendingPoint = some p)
    (hspare : MAX_QUEUED_POINTS ≤ s.queuedPoints → s.Spare) {frames : List ℚ} {now : ℚ}
    (hrate : frames.Pairwise fun t t' => MIN_FLUSH_INTERVAL_MS ≤ t' - t)
    (hnow : ∀ t ∈ frames, t ≤ now) :
    Inv (enqueue ⟨some a, .point a.id p (s.activeSeq + 1), []⟩ { s with
      pendingPoint := none
      lastFlushMs := some now
      activeSeq := s.activeSeq + 1
      frameFlushes := frames }) := by
  let t : QueuedSend := ⟨some a, .point a.id p (s.activeSeq + 1), []⟩
  let s₁ : DrawingSession := { s with
    pendingPoint := none, lastFlushMs := some now, activeSeq :=
      s.activeSeq + 1, frameFlushes := frames }
  have hq₁ : s₁.QueueOk := { h.queue with }
  obtain ⟨hq₂, hroom⟩ := hq₁.makeRoom
  have hq₃ : (push t { s₁.makeRoom with queuedPoints := s₁.makeRoom.queuedPoints + 1 }).QueueOk :=
    hq₂.pushPoint rfl hroom
  have hruns :
      (push t { s₁.makeRoom with queuedPoints := s₁.makeRoom.queuedPoints + 1 }).OneRuns := by
    rw [makeRoom_eq s₁]
    exact ⟨h.runs.length, h.runs.last⟩
  have hspaced :
      (push t { s₁.makeRoom with queuedPoints := s₁.makeRoom.queuedPoints + 1 }).Spaced := by
    rw [makeRoom_eq s₁]
    exact ⟨hrate, fun x hx => ⟨now, rfl, hnow x hx⟩⟩
  have hall : s₁.makeRoom.all = s.makeRoom.all := by
    have htasks : s₁.makeRoom.tasks = s.makeRoom.tasks := makeRoom_tasks rfl rfl
    rw [all, all, htasks, makeRoom_started, makeRoom_started]
  have hsheet : (push t { s₁.makeRoom with queuedPoints := s₁.makeRoom.queuedPoints + 1 }).sheet =
      { s.sheet with
        activeSeq := s.activeSeq + 1
        pendingPoint := none
        sends := s.makeRoom.all ++ [t] } := by
    rw [← hall, ← all_push, makeRoom_eq s₁]
    rfl
  refine ⟨hq₃.pump, hruns.pump.1, hruns.pump.2, hspaced.pump, ?_⟩
  have hflush :
      (pump (push t { s₁.makeRoom with queuedPoints := s₁.makeRoom.queuedPoints + 1 })).sheet.Inv
        := by
    rw [sheet_pump, hsheet]
    exact h.sheet.flush ha hp (h.queue.thinned h.sheet hspare)
  exact hflush

lemma Spaced.frame (h : s.Spaced) {now : ℚ} (hdue : s.DueAt now) :
    ∀ t ∈ s.frameFlushes, MIN_FLUSH_INTERVAL_MS ≤ now - t := by
  intro t ht
  obtain ⟨last, hlast, hle⟩ := h.flushed t ht
  have := hdue last hlast
  linarith

/-- **A flush.** -/
lemma Inv.flushPending (h : s.Inv) {force : Bool} {now : ℚ} (hroom : s.Room force now)
    (htime : force = true → s.OnTime now) : (s.flushPending force now).Inv := by
  rw [DrawingSession.flushPending]
  split
  · rename_i a p ha hp
    split_ifs with hskip hforce
    · exact h
    · have hflushes : s.Flushes true now := ⟨by rw [ha]; rfl, by rw [hp]; rfl, .inl rfl⟩
      subst hforce
      exact h.flushPoint ha hp (hroom hflushes) h.rate.spaced (htime rfl hflushes)
    · rw [Bool.not_eq_true] at hforce
      have hdue : s.DueAt now := by
        by_contra hdue
        exact hskip ⟨hforce, hdue⟩
      have hframes := h.rate.frame hdue
      have hpos : (0 : ℚ) ≤ MIN_FLUSH_INTERVAL_MS := by
        rw [MIN_FLUSH_INTERVAL_MS, MAX_DRAW_POINT_HZ]
        norm_num
      refine h.flushPoint ha hp (hroom ⟨by rw [ha]; rfl, by rw [hp]; rfl, .inr hdue⟩) ?_
        fun t ht => ?_
      · refine List.pairwise_append.2 ⟨h.rate.spaced, List.pairwise_singleton _ _,
          fun t ht t' ht' => ?_⟩
        rw [List.mem_singleton.1 ht']
        exact hframes t ht
      · rcases List.mem_append.1 ht with ht | ht
        · have := hframes t ht
          linarith
        · exact (List.mem_singleton.1 ht).le
  · exact h

/-! ### The calls -/

lemma next_active (s : DrawingSession) :
    s.next.active = s.active ∧ s.next.pendingPoint = s.pendingPoint := by
  rw [next]
  split <;> exact ⟨rfl, rfl⟩

/-- The queue leaves the stroke in progress alone. -/
lemma enqueue_active (t : QueuedSend) (s : DrawingSession) :
    (s.enqueue t).active = s.active ∧ (s.enqueue t).pendingPoint = s.pendingPoint := by
  have hpump : ∀ s : DrawingSession, s.pump.active = s.active ∧
      s.pump.pendingPoint = s.pendingPoint := by
    intro s
    rw [pump]
    split
    · exact ⟨rfl, rfl⟩
    · exact s.next_active
  rw [enqueue]
  split
  · rw [makeRoom_eq]
    exact hpump _
  · exact hpump _

lemma flushPending_active (force : Bool) (now : ℚ) (s : DrawingSession) :
    (s.flushPending force now).active = s.active := by
  rw [flushPending]
  split
  · split
    · rfl
    · exact (enqueue_active _ _).1
  · rfl

/-- A forced flush leaves nothing pending. -/
lemma flushPending_pendingPoint {a : ActiveStroke} (ha : s.active = some a) (now : ℚ) :
    (s.flushPending true now).pendingPoint = none := by
  rw [flushPending, ha]
  cases hp : s.pendingPoint with
  | none => exact hp
  | some p =>
    simp only [Bool.true_eq_false, false_and, if_false]
    exact (enqueue_active _ _).2

/-- A change of the strokes that leaves alone which of them have failed. -/
lemma QueueOk.ofStrokes (h : s.QueueOk) {strokes : List Stroke}
    (hsent : ∀ x ∈ s.started, ({ s with strokes := strokes }).sends x.1 = s.sends x.1)
    (hfailed : ∀ (i : ℕ) (st : Stroke), strokes[i]? = some st → st.failed = true →
      ∃ st₀ : Stroke, s.strokes[i]? = some st₀ ∧ st₀.failed = true) :
    QueueOk { s with strokes := strokes } where
  order := h.order
  onlyPoints := h.onlyPoints
  count := h.count
  bound := h.bound
  sent := fun x hx => (h.sent x hx).trans (hsent x hx).symm
  failed := by
    intro i st hst hfail
    obtain ⟨st₀, hst₀, hfail₀⟩ := hfailed i st hst hfail
    exact h.failed i st₀ hst₀ hfail₀

/-- The failures of the strokes decide what is handed over. -/
lemma sends_eq {strokes : List Stroke} (t : QueuedSend)
    (h : ∀ a ∈ t.stroke, strokes[a.ref]?.any (·.failed) = s.strokes[a.ref]?.any (·.failed)) :
    ({ s with strokes := strokes }).sends t = s.sends t := by
  have hfailed : ({ s with strokes := strokes }).failedOf t.stroke = s.failedOf t.stroke := by
    rw [failedOf, failedOf]
    cases hstroke : t.stroke with
    | none => rfl
    | some a => exact h a hstroke
  rw [sends, sends, hfailed]

lemma QueueOk.modify (h : s.QueueOk) (ref : ℕ) {f : Stroke → Stroke}
    (hf : ∀ st, (f st).failed = st.failed) :
    QueueOk { s with strokes := s.strokes.modify ref f } := by
  refine h.ofStrokes (fun x _ => sends_eq x.1 fun a _ => ?_) fun i st hst hfailed => ?_
  · rw [List.getElem?_modify]
    cases s.strokes[a.ref]? with
    | none => rfl
    | some st =>
      show (if ref = a.ref then f st else st).failed = st.failed
      split
      · exact hf st
      · rfl
  · obtain ⟨st₀, hst₀, rfl⟩ := getElem?_modify_eq_some hst
    refine ⟨st₀, hst₀, ?_⟩
    split at hfailed
    · rwa [hf] at hfailed
    · exact hfailed

lemma Inv.endStroke (h : s.Inv) {flush : ℚ} (hroom : s.Room true flush) (htime : s.OnTime flush)
    (stamp : ℚ) :
    (s.endStroke flush stamp).Inv ∧ (s.endStroke flush stamp).active = none := by
  cases ha : s.active with
  | none =>
    rw [DrawingSession.endStroke, ha]
    exact ⟨h, ha⟩
  | some a =>
    have hflush := h.flushPending hroom fun _ => htime
    have hactive := (flushPending_active true flush s).trans ha
    have hpending := flushPending_pendingPoint ha flush
    rw [DrawingSession.endStroke, ha]
    refine ⟨inv_enqueue rfl ?_ ⟨hflush.runs.length, hflush.runs.last⟩
      ⟨hflush.rate.spaced, hflush.rate.flushed⟩ ?_, (enqueue_active _ _).1⟩
    · exact { hflush.queue.modify a.ref (f := fun st => { st with closed := true })
        fun _ => rfl with }
    · exact hflush.sheet.close hactive hpending stamp

lemma Inv.beginStroke (h : s.Inv) (opts : BeginStrokeOptions) (newId : String) {flush : ℚ}
    (hroom : s.Room true flush) (htime : s.OnTime flush) (stamp : ℚ) :
    (s.beginStroke opts newId flush stamp).Inv := by
  obtain ⟨hend, hnone⟩ := h.endStroke hroom htime stamp
  rw [DrawingSession.beginStroke]
  refine inv_enqueue rfl ?_ ⟨hend.runs.length, hend.runs.last⟩ ⟨hend.rate.spaced, hend.rate.flushed⟩
    (hend.sheet.begin hnone _ opts)
  have hqueue : QueueOk { s.endStroke flush stamp with
      strokes := (s.endStroke flush stamp).strokes ++
        [⟨opts.strokeId.getD newId, false, [], false⟩] } := by
    refine hend.queue.ofStrokes (fun x hx => sends_eq x.1 fun a hxa => ?_)
      fun i st hst hfailed => ?_
    · have hknown : a.ref < (s.endStroke flush stamp).strokes.length :=
        hend.sheet.linked.known x.1 (List.mem_append_left _ (List.mem_map_of_mem hx)) a hxa
      rw [List.getElem?_append_left hknown]
    · rcases lt_or_ge i (s.endStroke flush stamp).strokes.length with hi | hi
      · rw [List.getElem?_append_left hi] at hst
        exact ⟨st, hst, hfailed⟩
      · rw [List.getElem?_append_right hi, List.getElem?_singleton] at hst
        obtain ⟨-, hst⟩ := Option.ite_none_right_eq_some.1 hst
        rw [← Option.some.inj hst] at hfailed
        cases hfailed
  exact { hqueue with }

lemma Inv.appendPoint (h : s.Inv) (p : StrokePointPayload) : (s.appendPoint p).Inv := by
  rw [DrawingSession.appendPoint]
  split
  · exact h
  · rename_i a ha
    exact {
      queue := { h.queue.modify a.ref (f := fun st => { st with appended := st.appended ++ [p] })
        fun _ => rfl with }
      runs := ⟨h.runs.length, h.runs.last⟩
      busy := h.busy
      rate := ⟨h.rate.spaced, h.rate.flushed⟩
      sheet := h.sheet.append ha p }

lemma Inv.undoStroke (h : s.Inv) {strokeId : String} (hdone : ∀ a ∈ s.active, a.id ≠ strokeId) :
    (s.undoStroke strokeId).Inv := by
  refine inv_enqueue rfl h.queue h.runs h.rate (h.sheet.queueOther rfl fun i hi => ?_)
  obtain ⟨hlt, hid⟩ := List.mem_filter.1 hi
  have hst := List.getElem?_eq_getElem (List.mem_range.1 hlt)
  rw [hst, Option.any_some, decide_eq_true_eq] at hid
  refine ⟨_, hst, ?_⟩
  by_contra hopen
  rw [Bool.not_eq_true] at hopen
  obtain ⟨a, ha, rfl⟩ := (h.sheet.closed i _ hst).1 hopen
  obtain ⟨st, hst', hid'⟩ := h.sheet.active a ha
  obtain rfl := Option.some.inj (hst.symm.trans hst')
  exact hdone a ha (hid'.symm.trans hid)

lemma Inv.clearAll (h : s.Inv) : s.clearAll.Inv :=
  inv_enqueue rfl h.queue h.runs h.rate (h.sheet.queueOther rfl fun _ hi =>
    absurd hi List.not_mem_nil)

lemma Inv.frame (h : s.Inv) {now : ℚ} (hg : orderly s (.frame now)) (hs' : s.frame now = some s') :
    s'.Inv := by
  rw [DrawingSession.frame] at hs'
  split_ifs at hs' with hscheduled
  cases hs'
  have h₀ : Inv { s with frameScheduled := false } :=
    ⟨{ h.queue with }, ⟨h.runs.length, h.runs.last⟩, h.busy,
      ⟨h.rate.spaced, h.rate.flushed⟩, h.sheet⟩
  have h₁ := h₀.flushPending (hg hscheduled) fun hc => by cases hc
  exact ⟨{ h₁.queue with }, ⟨h₁.runs.length, h₁.runs.last⟩, h₁.busy,
    ⟨h₁.rate.spaced, h₁.rate.flushed⟩, h₁.sheet⟩

/-! ### A send settles -/

/-- While the `DRAW_BEGIN` of a stroke runs, nothing else of it was taken from the queue. -/
lemma Inv.begin_alone (h : s.Inv) {handed : Bool} (hrun : s.running = some (t, handed))
    {a : ActiveStroke} (ha : t.stroke = some a) (hbegin : t.input.isBegin = true) :
    ∀ x ∈ s.started, x.1.ofStroke a.ref = true → x.1.input.isBegin = true := by
  obtain ⟨init, hinit⟩ := List.getLast?_eq_some_iff.1 (h.runs.last _ hrun)
  have hall : s.all = init.map (·.1) ++ t :: s.tasks := by
    rw [all, hinit, List.map_append, List.append_assoc]
    rfl
  have hof : t.ofStroke a.ref = true := ofStroke_eq_true.2 ⟨a, ha, rfl⟩
  have hknown : a.ref < s.strokes.length :=
    h.sheet.linked.known t (by rw [DrawingSession.sheet, hall]; simp) a ha
  obtain ⟨d, hd, -⟩ := (h.sheet.drawn _ _ (List.getElem?_eq_getElem hknown)).exists_sends
  obtain ⟨rest, hrest, hnone⟩ := d.inputs_eq_cons s.strokes[a.ref].id
  have hsends : sendsOf a.ref (init.map (·.1)) ++ t.input :: sendsOf a.ref s.tasks =
      .begins s.strokes[a.ref].id d.opts 1 :: rest := by
    rw [← sendsOf_cons_of hof, ← sendsOf_append, ← hall, ← hrest]
    exact hd
  have hnil : sendsOf a.ref (init.map (·.1)) = [] := by
    cases hinit : sendsOf a.ref (init.map (·.1)) with
    | nil => rfl
    | cons e l =>
      rw [hinit] at hsends
      injection hsends with _ htail
      have := hnone t.input (by rw [← htail]; simp)
      rw [hbegin] at this
      cases this
  intro x hx hxof
  rw [hinit] at hx
  rcases List.mem_append.1 hx with hx | hx
  · have := mem_sendsOf (List.mem_map_of_mem hx) hxof
    rw [hnil] at this
    cases this
  · rw [List.mem_singleton.1 hx]
    exact hbegin

lemma Inv.queue_fail (h : s.Inv)
    {handed : Bool} (hrun : s.running = some (t, handed)) {a : ActiveStroke}
    (ha : t.stroke = some a) (hbegin : t.input.isBegin = true) :
    QueueOk { s with strokes := s.strokes.modify a.ref ({ · with failed := true }) } where
  order := h.queue.order
  onlyPoints := h.queue.onlyPoints
  count := h.queue.count
  bound := h.queue.bound
  sent := by
    intro x hx
    rw [h.queue.sent x hx]
    by_cases hof : x.1.ofStroke a.ref = true
    · rw [sends, sends, h.begin_alone hrun ha hbegin x hx hof, Bool.or_true, Bool.or_true]
    · refine (sends_eq x.1 fun a' ha' => ?_).symm
      rw [List.getElem?_modify_ne]
      rintro hne
      exact hof (ofStroke_eq_true.2 ⟨a', ha', hne.symm⟩)
  failed := by
    intro i st hst hfailed
    obtain ⟨st₀, hst₀, rfl⟩ := getElem?_modify_eq_some hst
    by_cases hi : a.ref = i
    · exact ⟨(t, handed), List.mem_of_getLast? (h.runs.last _ hrun), ofStroke_eq_true.2 ⟨a, ha, hi⟩⟩
    · rw [if_neg hi] at hfailed
      exact h.queue.failed i st₀ hst₀ hfailed

lemma Inv.settle (h : s.Inv) {ok : Bool} (hs' : s.settle ok = some s') : s'.Inv := by
  obtain ⟨⟨t, handed⟩, hrun, rfl⟩ := Option.map_eq_some_iff.1 hs'
  have hlen : s.started.length = s.settled + 1 := by
    have := h.runs.length
    rwa [hrun] at this
  have hafter : QueueOk { s with strokes := s.strokesAfter ok t handed } ∧
      Sheet.Inv { s.sheet with strokes := s.strokesAfter ok t handed } := by
    rw [strokesAfter]
    split
    · rename_i a ha
      split_ifs with hfails
      · exact ⟨h.queue_fail hrun ha hfails.2.2, h.sheet.fail a.ref⟩
      · exact ⟨h.queue, h.sheet⟩
    · exact ⟨h.queue, h.sheet⟩
  have hqueue :
      QueueOk { s with strokes := s.strokesAfter ok t handed, settled := s.settled + 1 } :=
    { hafter.1 with }
  have hspaced :
      Spaced { s with strokes := s.strokesAfter ok t handed, settled := s.settled + 1 } :=
    ⟨h.rate.spaced, h.rate.flushed⟩
  have hruns := oneRuns_next
    (s := { s with strokes := s.strokesAfter ok t handed, settled := s.settled + 1 }) hlen
  refine ⟨hqueue.next, hruns.1, hruns.2, hspaced.next, ?_⟩
  rw [sheet_next]
  exact hafter.2

end DrawingSession

/-- **Every input.** -/
lemma DrawingSession.Inv.step {s s' : DrawingSession} (h : s.Inv) {i : DrawInput} (hg : orderly s i)
    (hs' : drawMachine s i = some s') : s'.Inv := by
  cases i with
  | beginStroke opts newId flush stamp =>
    cases hs'
    exact h.beginStroke opts newId hg.1 hg.2 stamp
  | appendPoint p =>
    cases hs'
    exact h.appendPoint p
  | endStroke flush stamp =>
    cases hs'
    exact (h.endStroke hg.1 hg.2 stamp).1
  | undoStroke strokeId =>
    cases hs'
    exact h.undoStroke hg
  | clearAll =>
    cases hs'
    exact h.clearAll
  | frame t => exact h.frame hg hs'
  | settle ok => exact h.settle hs'

/-! ### The promises -/

namespace DrawingSession

variable {s : DrawingSession}

/-- What of a stroke was taken from the queue was handed over, or of a failed one its
`DRAW_BEGIN`. -/
lemma Inv.handed_eq (h : s.Inv) {i : ℕ} {st : Stroke} (hst : s.strokes[i]? = some st) :
    s.handed i = (sendsOf i (s.started.map (·.1))).filter fun e => !st.failed || e.isBegin := by
  have hsent : ∀ x ∈ s.started, (x.2 && x.1.ofStroke i) =
      (x.1.ofStroke i && (!st.failed || x.1.input.isBegin)) := by
    intro x hx
    by_cases hof : x.1.ofStroke i = true
    · obtain ⟨a, ha, rfl⟩ := ofStroke_eq_true.1 hof
      rw [Option.mem_def] at ha
      rw [hof, h.queue.sent x hx, sends, failedOf, ha, Option.any_some, hst, Option.any_some,
        Bool.and_true, Bool.true_and]
    · rw [Bool.not_eq_true] at hof
      rw [hof, Bool.and_false, Bool.false_and]
  rw [handed, List.filter_congr hsent, sendsOf, List.filter_map, List.filter_map, List.filter_map,
    List.map_map, List.filter_filter]
  refine congrArg _ (List.filter_congr fun x _ => ?_)
  exact Bool.and_comm _ _

lemma Inv.strokeSent (h : s.Inv) {i : ℕ} {st : Stroke} (hst : s.strokes[i]? = some st) :
    s.StrokeSent i st := by
  obtain ⟨⟨d, hd, hending, -⟩, hpoints⟩ := h.sheet.drawn i st hst
  have hsplit : sendsOf i (s.started.map (·.1)) ++ s.waiting i = d.inputs st.id := by
    rw [← hd, DrawingSession.sheet, all, sendsOf_append]
    rfl
  rw [StrokeSent]
  split_ifs with hfailed
  · refine ⟨d.opts, ?_⟩
    obtain ⟨rest, hrest, hnone⟩ := d.inputs_eq_cons st.id
    obtain ⟨x, hx, hof⟩ := h.queue.failed i st hst hfailed
    rw [h.handed_eq hst, hfailed]
    cases hstarted : sendsOf i (s.started.map (·.1)) with
    | nil =>
      have := mem_sendsOf (List.mem_map_of_mem hx) hof
      rw [hstarted] at this
      cases this
    | cons e l =>
      rw [hstarted, hrest] at hsplit
      injection hsplit with he hl
      have hl' : l.filter (·.isBegin) = [] := List.filter_eq_nil_iff.2 fun e' he' => by
        rw [hnone e' (by rw [← hl]; exact List.mem_append_left _ he')]
        exact Bool.false_ne_true
      rw [he]
      simpa [DrawingSendInput.isBegin] using hl'
  · rw [Bool.not_eq_true] at hfailed
    have hhanded : s.handed i = sendsOf i (s.started.map (·.1)) := by
      rw [h.handed_eq hst, hfailed]
      exact List.filter_eq_self.2 fun _ _ => rfl
    rw [hd, pointsOf_inputs] at hpoints
    refine ⟨d, by rw [hhanded, hsplit], hpoints, hending, fun hclosed => ?_⟩
    have := h.sheet.trailing i st hst hclosed hfailed
    rwa [hd, pointsOf_inputs] at this

lemma Inv.faithful (h : s.Inv) : s.Faithful where
  oneAtATime := h.runs.length
  busy := h.busy
  order := h.queue.order
  onlyPoints := h.queue.onlyPoints
  strokes := fun _ _ hst => h.strokeSent hst
  undos := fun _ _ _ hall _ hi => h.sheet.undos hall hi
  count := h.queue.count
  bound := h.queue.bound
  spaced := h.rate.spaced

end DrawingSession

/-- **The send queue.** In every orderly run the sends are as promised. -/
theorem drawing_queue {s : DrawingSession}
    (r : drawMachine.Reaches orderly DrawingSession.start s) : s.Faithful :=
  (r.invariant (I := DrawingSession.Inv) DrawingSession.inv_start fun _ _ _ h hg hs' =>
    h.step hg hs').faithful

/-! ### Two strokes -/

def penOpts (strokeId : String) : BeginStrokeOptions :=
  ⟨.pen, "#ffffff", 4, ⟨0, 0, 1, 0⟩, some strokeId⟩

def penPoint (x : ℚ) : StrokePointPayload := ⟨x, 0, 1, 0⟩

/-- A stroke of three points, of which the frames leave out the second, and its undo. -/
def oneStroke : List DrawInput :=
  [.beginStroke (penOpts "s") "" 0 0, .appendPoint (penPoint 1), .frame 100,
    .appendPoint (penPoint 2), .frame 110, .appendPoint (penPoint 3), .endStroke 111 111,
    .undoStroke "s", .settle true, .settle true,
    .settle false, .settle true, .settle true]

theorem drawing_queue_oneStroke : ∃ s : DrawingSession, s.Faithful ∧
    s.started.map (·.1.input) = [.begins "s" (penOpts "s") 1, .point "s" (penPoint 1) 2,
      .point "s" (penPoint 3) 3, .ends "s" 111 4, .undo "s"] := by
  have hrun : ∃ s, drawMachine.Reaches orderly DrawingSession.start s ∧
      s.started.map (·.1.input) = [.begins "s" (penOpts "s") 1, .point "s" (penPoint 1) 2,
        .point "s" (penPoint 3) 3, .ends "s" 111 4, .undo "s"] :=
    Machine.exists_reaches_of_play oneStroke
      (fun s => s.started.map (·.1.input) = [.begins "s" (penOpts "s") 1, .point "s" (penPoint 1) 2,
        .point "s" (penPoint 3) 3, .ends "s" 111 4, .undo "s"])
      (fun s hs => of_decide_eq_true hs) (by decide +kernel)
  obtain ⟨s, hr, hs⟩ := hrun
  exact ⟨s, drawing_queue hr, hs⟩

/-- The `DRAW_BEGIN` of a stroke hangs while the stroke is ended and 32 points of the next are
queued. -/
def hungStroke : List DrawInput :=
  [.beginStroke (penOpts "a") "" 0 0, .appendPoint (penPoint 1), .endStroke 1 1,
    .beginStroke (penOpts "b") "" 2 2] ++ (List.range 32).flatMap fun n =>
      [.appendPoint (penPoint n), .frame (20 * (n + 1))]

/-- The last point of the first stroke is not among its sends. -/
def lostPoint (s : DrawingSession) : Bool :=
  s.strokes[0]?.any fun st => st.closed && !st.failed &&
    (pointsOf (s.handed 0 ++ s.waiting 0)).getLast? ≠ st.appended.getLast?

lemma DrawingSession.Faithful.not_lostPoint {s : DrawingSession} (h : s.Faithful) :
    lostPoint s = false := by
  rw [lostPoint, ← Bool.not_eq_true, Option.any_eq_true]
  rintro ⟨st, hst, hlost⟩
  have hsent := h.strokes 0 st hst
  rw [Bool.and_eq_true, Bool.and_eq_true, Bool.not_eq_true', decide_eq_true_eq] at hlost
  obtain ⟨⟨hclosed, hfailed⟩, hne⟩ := hlost
  rw [DrawingSession.StrokeSent, hfailed, if_neg Bool.false_ne_true] at hsent
  obtain ⟨d, hd, -, -, hlast⟩ := hsent
  rw [hd, pointsOf_inputs] at hne
  exact hne (hlast hclosed)

/-- The full queue drops the last point of an ended stroke. -/
theorem not_drawing_queue :
    ¬ ∀ s, drawMachine.Reaches Machine.free DrawingSession.start s → s.Faithful := by
  intro h
  have hrun : ∃ s, drawMachine.Reaches Machine.free DrawingSession.start s ∧ lostPoint s = true :=
    Machine.exists_reaches_of_play hungStroke lostPoint (fun s hs => hs) (by decide +kernel)
  obtain ⟨s, hr, hs⟩ := hrun
  rw [(h s hr).not_lostPoint] at hs
  cases hs

end Locast.Client.Drawing
