import Mathlib.Data.List.Basic
import Mathlib.Order.Nat
import Mathlib.Tactic.SplitIfs

/-!
# Progress of a download (`transfer/events.rs`)

The webview is told of every change of state at once, and of progress at most so often: what comes
too early waits in a slot for one payload.  A run is a list of calls with the time of each.
-/

namespace Locast.Transfer.Emitter

/-- `DownloadStateEvent`. -/
structure DownloadStateEvent where
  v : ℕ
  id : String
  mediaId : String
  state : String
  errorMessage : Option String
  deriving DecidableEq

/-- `is_terminal_state`. -/
def isTerminalState (state : String) : Bool :=
  state == "complete" || state == "failed" || state == "cancelled"

/-- `PROGRESS_INTERVAL_MS`, in the nanoseconds of an `Instant`. -/
def progressInterval : ℕ := 200 * 1000000

/-- `DownloadEventEmitter`; `π` is a payload of progress, which is passed on as it is. -/
structure DownloadEventEmitter (π : Type) where
  lastProgressAt : ℕ
  lastProgress : Option π
  sessionTerminal : Bool

/-- What the sink is told. -/
inductive Emitted (π : Type) where
  | progress (ev : π)
  | state (ev : DownloadStateEvent)
  deriving DecidableEq

variable {π : Type}

namespace DownloadEventEmitter

/-- `new`: the clock starts now. -/
def new (now : ℕ) : DownloadEventEmitter π := ⟨now, none, false⟩

/-- `flush_pending_progress`. -/
def flushPendingProgress (e : DownloadEventEmitter π) : DownloadEventEmitter π × List (Emitted π) :=
  ({ e with lastProgress := none }, (e.lastProgress.map .progress).toList)

/-- `record_state`. -/
def recordState (e : DownloadEventEmitter π) (ev : DownloadStateEvent) :
    DownloadEventEmitter π × List (Emitted π) :=
  if isTerminalState ev.state then
    ({ e.flushPendingProgress.1 with sessionTerminal := true },
      e.flushPendingProgress.2 ++ [.state ev])
  else (e, [.state ev])

/-- `record_progress`. -/
def recordProgress (e : DownloadEventEmitter π) (now : ℕ) (ev : π) :
    DownloadEventEmitter π × List (Emitted π) :=
  if e.sessionTerminal then (e, [])
  else if now - e.lastProgressAt < progressInterval then ({ e with lastProgress := some ev }, [])
  else
    ({ e.flushPendingProgress.1 with lastProgressAt := now, lastProgress := none },
      e.flushPendingProgress.2 ++ [.progress ev])

/-- `shutdown`. -/
def shutdown (e : DownloadEventEmitter π) : DownloadEventEmitter π × List (Emitted π) :=
  ({ e.flushPendingProgress.1 with sessionTerminal := true }, e.flushPendingProgress.2)

end DownloadEventEmitter

/-! ### Runs -/

inductive Call (π : Type) where
  | recordProgress (ev : π)
  | recordState (ev : DownloadStateEvent)
  | flush
  | shutdown
  deriving DecidableEq

/-- One call. -/
def Call.on (e : DownloadEventEmitter π) (now : ℕ) :
    Call π → DownloadEventEmitter π × List (Emitted π)
  | recordProgress ev => e.recordProgress now ev
  | recordState ev => e.recordState ev
  | flush => e.flushPendingProgress
  | shutdown => e.shutdown

/-- The emitter after some calls. -/
def after (e : DownloadEventEmitter π) : List (ℕ × Call π) → DownloadEventEmitter π
  | [] => e
  | (now, c) :: rest => after (c.on e now).1 rest

/-- What the calls emit, with the time of each. -/
def emitted (e : DownloadEventEmitter π) : List (ℕ × Call π) → List (ℕ × Emitted π)
  | [] => []
  | (now, c) :: rest => (c.on e now).2.map (now, ·) ++ emitted (c.on e now).1 rest

/-- The payload that a call records. -/
def Call.payload : Call π → Option π
  | recordProgress ev => some ev
  | _ => none

def recorded (calls : List (ℕ × Call π)) : List π := calls.filterMap fun x => x.2.payload

def Emitted.payload : Emitted π → Option π
  | progress ev => some ev
  | state _ => none

/-- The payloads that are emitted. -/
def progressed (l : List (ℕ × Emitted π)) : List π := l.filterMap fun x => x.2.payload

/-- The times at which one is emitted. -/
def progressTimes (l : List (ℕ × Emitted π)) : List ℕ :=
  l.filterMap fun x => x.2.payload.map fun _ => x.1

/-- A terminal state, or the shutdown. -/
def Call.Ends : Call π → Prop
  | recordState ev => isTerminalState ev.state = true
  | shutdown => True
  | _ => False

/-- The state that a call announces. -/
def Call.announced : Call π → List (Emitted π)
  | recordState ev => [.state ev]
  | _ => []

variable {e : DownloadEventEmitter π} {now : ℕ} {c : Call π} {calls calls' : List (ℕ × Call π)}

lemma after_append : after e (calls ++ calls') = after (after e calls) calls' := by
  induction calls generalizing e with
  | nil => rfl
  | cons x calls ih => exact ih

lemma emitted_append :
    emitted e (calls ++ calls') = emitted e calls ++ emitted (after e calls) calls' := by
  induction calls generalizing e with
  | nil => rfl
  | cons x calls ih => rw [List.cons_append, emitted, ih, emitted, after, List.append_assoc]

lemma progressed_append (l l' : List (ℕ × Emitted π)) :
    progressed (l ++ l') = progressed l ++ progressed l' := List.filterMap_append

lemma recorded_cons (x : ℕ × Call π) :
    recorded (x :: calls) = x.2.payload.toList ++ recorded calls := by
  rw [recorded, List.filterMap_cons]
  cases x.2.payload <;> rfl

/-- What one call emits of progress. -/
def told (l : List (Emitted π)) : List π := l.filterMap Emitted.payload

lemma progressed_map (l : List (Emitted π)) : progressed (l.map (now, ·)) = told l := by
  rw [progressed, List.filterMap_map]
  rfl

lemma told_pending (e : DownloadEventEmitter π) :
    told e.flushPendingProgress.2 = e.lastProgress.toList := by
  unfold DownloadEventEmitter.flushPendingProgress told
  cases e.lastProgress <;> rfl

/-! ### One call -/

/-- **What a call can do**: it keeps what is pending, or makes a payload wait in its place, or emits
what is pending and then its own payload or state. -/
lemma on_cases (e : DownloadEventEmitter π) (now : ℕ) (c : Call π) :
    (∃ ev, c = .recordProgress ev ∧ e.sessionTerminal = true ∧ c.on e now = (e, [])) ∨
    (∃ ev, c = .recordProgress ev ∧ e.sessionTerminal = false ∧
      c.on e now = ({ e with lastProgress := some ev }, [])) ∨
    (∃ ev, c = .recordProgress ev ∧ e.sessionTerminal = false ∧
      e.lastProgressAt + progressInterval ≤ now ∧
        c.on e now = (⟨now, none, false⟩, e.flushPendingProgress.2 ++ [.progress ev])) ∨
    (∃ ev, c = .recordState ev ∧ isTerminalState ev.state = false ∧ c.on e now = (e, [.state ev])) ∨
    (c = .flush ∧ c.on e now = ({ e with lastProgress := none }, e.flushPendingProgress.2)) ∨
    c.Ends ∧ c.on e now =
      (⟨e.lastProgressAt, none, true⟩, e.flushPendingProgress.2 ++ c.announced) := by
  cases c with
  | recordProgress ev =>
    simp only [Call.on, DownloadEventEmitter.recordProgress]
    by_cases hterm : e.sessionTerminal = true
    · rw [if_pos hterm]
      exact .inl ⟨ev, rfl, hterm, rfl⟩
    rw [if_neg hterm]
    rw [Bool.not_eq_true] at hterm
    by_cases hearly : now - e.lastProgressAt < progressInterval
    · rw [if_pos hearly]
      exact .inr (.inl ⟨ev, rfl, hterm, rfl⟩)
    · rw [if_neg hearly]
      have hpos : 0 < progressInterval := by decide
      refine .inr (.inr (.inl ⟨ev, rfl, hterm, by omega, ?_⟩))
      rw [← hterm]
      rfl
  | recordState ev =>
    simp only [Call.on, DownloadEventEmitter.recordState]
    by_cases hterm : isTerminalState ev.state = true
    · rw [if_pos hterm]
      exact .inr (.inr (.inr (.inr (.inr ⟨hterm, rfl⟩))))
    · rw [if_neg hterm]
      exact .inr (.inr (.inr (.inl ⟨ev, rfl, by simpa using hterm, rfl⟩)))
  | flush => exact .inr (.inr (.inr (.inr (.inl ⟨rfl, rfl⟩))))
  | shutdown =>
    have hnone : (Call.shutdown : Call π).announced = [] := rfl
    refine .inr (.inr (.inr (.inr (.inr ⟨trivial, ?_⟩))))
    rw [hnone, List.append_nil]
    rfl

lemma on_ends (e : DownloadEventEmitter π) (now : ℕ) {c : Call π} (hc : c.Ends) :
    c.on e now = (⟨e.lastProgressAt, none, true⟩, e.flushPendingProgress.2 ++ c.announced) := by
  obtain ⟨ev, rfl, -⟩ | ⟨ev, rfl, -⟩ | ⟨ev, rfl, -⟩ | ⟨ev, rfl, hopen, -⟩ | ⟨rfl, -⟩ | ⟨-, hon⟩ :=
    on_cases e now c
  · exact hc.elim
  · exact hc.elim
  · exact hc.elim
  · rw [Call.Ends, hopen] at hc
    cases hc
  · exact hc.elim
  · exact hon

/-! ### Order -/

lemma told_append_progress (e : DownloadEventEmitter π) (ev : π) :
    told (e.flushPendingProgress.2 ++ [.progress ev]) = e.lastProgress.toList ++ [ev] := by
  rw [told, List.filterMap_append, ← told, told_pending]
  rfl

lemma told_append_announced (e : DownloadEventEmitter π) (c : Call π) :
    told (e.flushPendingProgress.2 ++ c.announced) = e.lastProgress.toList := by
  have hnone : c.announced.filterMap Emitted.payload = [] := by
    cases c <;> rfl
  rw [told, List.filterMap_append, hnone, List.append_nil, ← told, told_pending]

/-- What a call emits and leaves waiting was waiting or is its own. -/
lemma told_sublist (e : DownloadEventEmitter π) (now : ℕ) (c : Call π) :
    (told (c.on e now).2 ++ (c.on e now).1.lastProgress.toList).Sublist
      (e.lastProgress.toList ++ c.payload.toList) := by
  obtain ⟨ev, rfl, -, hon⟩ | ⟨ev, rfl, -, hon⟩ | ⟨ev, rfl, -, -, hon⟩ | ⟨ev, rfl, -,
    hon⟩ | ⟨rfl, hon⟩ |
    ⟨-, hon⟩ := on_cases e now c <;> rw [hon]
  · exact List.sublist_append_left _ _
  · exact List.sublist_append_right _ _
  · rw [told_append_progress]
    exact (List.append_nil _).symm ▸ List.Sublist.refl _
  · exact List.sublist_append_left _ _
  · rw [told_pending]
    exact List.Sublist.refl _
  · rw [told_append_announced]
    exact (List.append_nil _).symm ▸ List.sublist_append_left _ _

/-- **What is emitted was recorded, in its order.** -/
lemma progressed_sublist (e : DownloadEventEmitter π) (calls : List (ℕ × Call π)) :
    (progressed (emitted e calls)).Sublist (e.lastProgress.toList ++ recorded calls) := by
  induction calls generalizing e with
  | nil => exact List.nil_sublist _
  | cons x calls ih =>
    obtain ⟨now, c⟩ := x
    rw [emitted, progressed_append, progressed_map, recorded_cons, ← List.append_assoc]
    have hrest := (ih (c.on e now).1).append_left (told (c.on e now).2)
    have hcall := (told_sublist e now c).append_right (recorded calls)
    rw [List.append_assoc] at hcall
    exact hrest.trans hcall

/-! ### The end -/

/-- **Nothing is lost before the end**: the last payload of all is emitted or waits. -/
lemma last_call (now : ℕ) (he : e.sessionTerminal = false) (hc : ¬c.Ends) :
    (c.on e now).1.sessionTerminal = false ∧
      (told (c.on e now).2 ++ (c.on e now).1.lastProgress.toList).getLast? =
        (e.lastProgress.toList ++ c.payload.toList).getLast? := by
  obtain ⟨ev, rfl, hterm, -⟩ | ⟨ev, rfl, -, hon⟩ | ⟨ev, rfl, -, -, hon⟩ | ⟨ev, rfl, -,
    hon⟩ | ⟨rfl, hon⟩ |
    ⟨hends, -⟩ := on_cases e now c
  · rw [he] at hterm
    cases hterm
  · rw [hon]
    exact ⟨he, by simp [told, Call.payload]⟩
  · rw [hon, told_append_progress]
    exact ⟨rfl, by simp [Call.payload]⟩
  · rw [hon]
    exact ⟨he, by simp [told, Call.payload, Emitted.payload]⟩
  · rw [hon, told_pending]
    exact ⟨he, by simp [Call.payload]⟩
  · exact absurd hends hc

lemma last_run (he : e.sessionTerminal = false) (hcalls : ∀ x ∈ calls, ¬x.2.Ends) :
    (after e calls).sessionTerminal = false ∧
      (progressed (emitted e calls) ++ (after e calls).lastProgress.toList).getLast? =
        (e.lastProgress.toList ++ recorded calls).getLast? := by
  induction calls generalizing e with
  | nil => exact ⟨he, by simp [emitted, progressed, recorded, after]⟩
  | cons x calls ih =>
    obtain ⟨now, c⟩ := x
    rw [List.forall_mem_cons] at hcalls
    obtain ⟨hopen, hcall⟩ := last_call now he hcalls.1
    obtain ⟨hlast, hrest⟩ := ih hopen hcalls.2
    refine ⟨hlast, ?_⟩
    rw [List.getLast?_append, List.getLast?_append] at hcall
    rw [emitted, after, progressed_append, progressed_map, recorded_cons, List.append_assoc,
      List.getLast?_append, hrest, List.getLast?_append, Option.or_assoc, hcall,
        ← List.getLast?_append,
      ← List.getLast?_append, List.append_assoc]

/-- **After the end nothing of progress is emitted.** -/
lemma progressed_of_ended (he : e.sessionTerminal = true) (hnone : e.lastProgress = none)
    (calls : List (ℕ × Call π)) : progressed (emitted e calls) = [] := by
  induction calls generalizing e with
  | nil => rfl
  | cons x calls ih =>
    obtain ⟨now, c⟩ := x
    have hpending : told e.flushPendingProgress.2 = [] := by
      rw [told_pending, hnone]
      rfl
    rw [emitted, progressed_append, progressed_map]
    obtain ⟨ev, rfl, -, hon⟩ | ⟨ev, rfl, hterm, -⟩ | ⟨ev, rfl, hterm, -, -⟩ | ⟨ev, rfl, -, hon⟩ |
      ⟨rfl, hon⟩ | ⟨-, hon⟩ := on_cases e now c
    · rw [hon]
      exact ih he hnone
    · rw [he] at hterm
      cases hterm
    · rw [he] at hterm
      cases hterm
    · rw [hon]
      exact ih he hnone
    · rw [hon, hpending]
      exact ih he rfl
    · rw [hon, told_append_announced, hnone]
      exact ih rfl rfl

/-! ### The rate -/

/-- The clock is put forward by what a call emits on arrival, and by nothing else. -/
lemma clock_call (e : DownloadEventEmitter π) (now : ℕ) (c : Call π) :
    (c.on e now).1.lastProgressAt = e.lastProgressAt ∧
      (∀ ev, c = .recordProgress ev → (c.on e now).2 = []) ∨ e.lastProgressAt + progressInterval ≤
      now ∧ (c.on e now).1.lastProgressAt = now ∧
        ∃ ev, c = .recordProgress ev ∧ told (c.on e now).2 = e.lastProgress.toList ++ [ev] := by
  obtain ⟨ev, rfl, -, hon⟩ | ⟨ev, rfl, -, hon⟩ | ⟨ev, rfl, -, hle, hon⟩ | ⟨ev, rfl, -,
    hon⟩ | ⟨rfl, hon⟩ |
    ⟨hends, hon⟩ := on_cases e now c <;> rw [hon]
  · exact .inl ⟨rfl, fun _ _ => rfl⟩
  · exact .inl ⟨rfl, fun _ _ => rfl⟩
  · exact .inr ⟨hle, rfl, ev, rfl, told_append_progress e ev⟩
  · exact .inl ⟨rfl, by rintro _ ⟨⟩⟩
  · exact .inl ⟨rfl, by rintro _ ⟨⟩⟩
  · refine .inl ⟨rfl, ?_⟩
    rintro ev rfl
    exact hends.elim

lemma clock_run (e : DownloadEventEmitter π) (calls : List (ℕ × Call π)) :
    e.lastProgressAt ≤ (after e calls).lastProgressAt := by
  induction calls generalizing e with
  | nil => exact le_rfl
  | cons x calls ih =>
    obtain ⟨now, c⟩ := x
    have hcall : e.lastProgressAt ≤ (c.on e now).1.lastProgressAt := by
      rcases clock_call e now c with ⟨hsame, -⟩ | ⟨hle, hnow, -⟩
      · exact hsame.ge
      · rw [hnow]
        exact (Nat.le_add_right _ _).trans hle
    exact hcall.trans (ih _)

/-! ### Coalescing -/

/-- **What the emitter keeps.**  What is emitted was recorded, in its order.  The first call that
ends the session is preceded by the last payload recorded before it, and nothing follows it.  Two
calls that record progress and emit anything are an interval apart; such a call emits what was
waiting and then its own payload, and every other call at most what was waiting. -/
theorem progress_coalesced (start : ℕ) (calls : List (ℕ × Call π)) :
    (progressed (emitted (.new start) calls)).Sublist (recorded calls) ∧
    (∀ before now c rest, calls = before ++ (now, c) :: rest → c.Ends → (∀ x ∈ before, ¬x.2.Ends) →
      (∃ l, emitted (.new start) (before ++ [(now, c)]) = l ++ c.announced.map (now, ·) ∧
        (progressed l).getLast? = (recorded before).getLast?) ∧
      progressed (emitted (after (.new start) (before ++ [(now, c)])) rest) = []) ∧
    (∀ before now ev mid now' ev' rest,
      calls = before ++ (now, .recordProgress ev) :: (mid ++ (now', .recordProgress ev') :: rest) →
      ((Call.recordProgress ev).on (after (.new start) before) now).2 ≠ [] →
      ((Call.recordProgress ev').on
        (after (.new start) (before ++ (now, .recordProgress ev) :: mid)) now').2 ≠ [] →
      now + progressInterval ≤ now') ∧
    ∀ (e : DownloadEventEmitter π) (now : ℕ) (c : Call π),
      told (c.on e now).2 = [] ∨ told (c.on e now).2 = e.lastProgress.toList ++
        c.payload.toList := by
  refine ⟨progressed_sublist (.new start) calls, ?_, ?_, ?_⟩
  · rintro before now c rest - hends hbefore
    obtain ⟨-, hlast⟩ := last_run (e := .new start) rfl hbefore
    have hon := on_ends (after (.new start) before) now hends
    rw [emitted_append, after_append, emitted, emitted, after, after, hon]
    refine ⟨⟨emitted (.new start) before ++
      (after (.new start) before).flushPendingProgress.2.map (now, ·), ?_, ?_⟩,
      progressed_of_ended rfl rfl rest⟩
    · rw [List.map_append, List.append_nil, List.append_assoc]
    · rw [progressed_append, progressed_map, told_pending]
      exact hlast
  · rintro before now ev mid now' ev' rest - hfirst hsecond
    rcases clock_call (after (.new start) before) now (.recordProgress ev)
      with ⟨-, hnil⟩ | ⟨-, hnow, -⟩
    · exact absurd (hnil ev rfl) hfirst
    rcases clock_call (after (.new start) (before ++ (now, .recordProgress ev) :: mid)) now'
      (.recordProgress ev') with ⟨-, hnil⟩ | ⟨hle, -⟩
    · exact absurd (hnil ev' rfl) hsecond
    rw [after_append, after] at hle
    have hclock := clock_run ((Call.recordProgress ev).on (after (.new start) before) now).1 mid
    rw [hnow] at hclock
    omega
  · intro e now c
    obtain ⟨ev, rfl, -, hon⟩ | ⟨ev, rfl, -, hon⟩ | ⟨ev, rfl, -, -, hon⟩ | ⟨ev, rfl, -,
      hon⟩ | ⟨rfl, hon⟩ |
      ⟨hends, hon⟩ := on_cases e now c <;> rw [hon]
    · exact .inl rfl
    · exact .inl rfl
    · exact .inr (told_append_progress e ev)
    · exact .inl rfl
    · refine .inr ((told_pending e).trans (List.append_nil _).symm)
    · have hnone : c.payload = none := by
        cases c with
        | recordProgress ev => exact hends.elim
        | _ => rfl
      rw [told_append_announced, hnone]
      exact .inr (List.append_nil _).symm

/-! ### What is closer together -/

/-- What a reader of the module may expect: nothing recorded before a terminal state is lost, and
all that is emitted before it is an interval apart. -/
structure Expected (start : ℕ) (calls : List (ℕ × Call π)) : Prop where
  subsequence : (progressed (emitted (.new start) calls)).Sublist (recorded calls)
  before : ∀ before now ev rest, calls = before ++ (now, .recordState ev) :: rest →
    isTerminalState ev.state = true → ∀ p, (recorded before).getLast? = some p →
      p ∈ progressed (emitted (.new start) (before ++ [(now, .recordState ev)]))
  nothing : ∀ before now ev rest, calls = before ++ (now, .recordState ev) :: rest →
    isTerminalState ev.state = true →
      progressed (emitted (after (.new start) (before ++ [(now, .recordState ev)])) rest) = []
  apart : ∀ before rest, calls = before ++ rest → (∀ x ∈ before, ¬x.2.Ends) →
    (progressTimes (emitted (.new start) before)).Pairwise fun t t' => t + progressInterval ≤ t'

/-- **Two payloads at one instant, and one that is lost.**  A payload that waits is emitted together
with the next; what is recorded after the shutdown is not emitted before the terminal state that
follows. -/
theorem not_expected :
    ¬Expected 0 [(100 * 1000000, .recordProgress 1), (250 * 1000000, .recordProgress 2)] ∧
    ¬Expected 0 [(0, .shutdown), (0, .recordProgress 1),
      (0, .recordState ⟨1, "d", "m", "complete", none⟩)] := by
  constructor
  · intro h
    have hapart := h.apart _ [] (List.append_nil _).symm (by
      rw [List.forall_mem_cons, List.forall_mem_singleton]
      exact ⟨id, id⟩)
    exact absurd hapart (by decide)
  · intro h
    have hmem := h.before [(0, .shutdown), (0, .recordProgress 1)] 0
      ⟨1, "d", "m", "complete", none⟩ [] rfl
      (by decide) 1 rfl
    exact absurd hmem (by decide)

end Locast.Transfer.Emitter
