import Locast.Lib.Machine
import Mathlib.Data.Rat.Floor
import Mathlib.Data.List.Basic

/-!
# The host's native controls (`services/hostNativeControls.ts`)

The app moves the host's element as a user does, and both fire the same events later.  A flag for
each kind marks the app's own change until its event takes the mark away; an event without a mark is
the user's.

Numbers are rationals: how JavaScript rounds is not modelled.
-/

namespace Locast.Client.NativeControls

open Locast.Lib

/-! ### The element -/

/-- `NativeControlKind`. -/
inductive NativeControlKind where
  | play
  | pause
  | seek
  deriving DecidableEq

/-- Whose change it was. -/
inductive Cause where
  | app
  | user
  deriving DecidableEq

/-- An event of the element; of a seek it is `seeked`. -/
structure DomEvent where
  kind : NativeControlKind
  cause : Cause
  deriving DecidableEq

/-- `HTMLMediaElement.HAVE_METADATA`. -/
def HAVE_METADATA : ℕ := 1

/-- The element: `seeking` has whose the last seek is while one is in flight, `queue` the events
that are not delivered yet, and `fired` all that were ever queued. -/
structure HTMLVideoElement where
  currentTime : ℚ
  paused : Bool
  readyState : ℕ
  seeking : Option Cause
  queue : List DomEvent
  fired : List DomEvent
  deriving DecidableEq

namespace HTMLVideoElement

def fire (kind : NativeControlKind) (cause : Cause) (v : HTMLVideoElement) : HTMLVideoElement :=
  { v with queue := v.queue ++ [⟨kind, cause⟩], fired := v.fired ++ [⟨kind, cause⟩] }

/-- A write to `currentTime`: it starts a seek, in place of one in flight; before the metadata it is
only remembered. -/
def setCurrentTime (seconds : ℚ) (cause : Cause) (v : HTMLVideoElement) : HTMLVideoElement :=
  { v with
    currentTime := seconds
    seeking := if HAVE_METADATA ≤ v.readyState then some cause else v.seeking }

/-- The seek in flight is through. -/
def seekEnds (v : HTMLVideoElement) : Option HTMLVideoElement :=
  v.seeking.map fun cause => fire .seek cause { v with seeking := none }

/-- `play()` that is not refused. -/
def play (cause : Cause) (v : HTMLVideoElement) : HTMLVideoElement :=
  if v.paused then fire .play cause { v with paused := false } else v

def pause (cause : Cause) (v : HTMLVideoElement) : HTMLVideoElement :=
  if v.paused then v else fire .pause cause { v with paused := true }

/-- The events of playing and pausing that are not delivered yet. -/
def presses (v : HTMLVideoElement) : List DomEvent := v.queue.filter (·.kind ≠ .seek)

/-- The `seeked` events that are not delivered yet. -/
def seeks (v : HTMLVideoElement) : List DomEvent := v.queue.filter (·.kind = .seek)

end HTMLVideoElement

/-! ### The helpers -/

/-- `Flags`. -/
structure Flags where
  seek : Bool
  play : Bool
  pause : Bool
  deriving DecidableEq

/-- The promise of a `play()` of the app that is outstanding.  It is fresh if the element was paused
at the call and neither a press was delivered nor a promise rejected since. -/
structure PlayPromise where
  refused : Bool
  fresh : Bool
  deriving DecidableEq

/-- The element with its flags and the outstanding promises.  What `onUserChange` was told and what
was delivered are kept with the position. -/
structure HostVideo where
  video : HTMLVideoElement
  flags : Flags
  promises : List PlayPromise
  reported : List (NativeControlKind × ℤ)
  delivered : List (DomEvent × ℤ)
  deriving DecidableEq

namespace HostVideo

/-- An element whose events are broadcast from now on. -/
def start (currentTime : ℚ) (paused : Bool) (readyState : ℕ) : HostVideo where
  video := ⟨currentTime, paused, readyState, none, [], []⟩
  flags := ⟨false, false, false⟩
  promises := []
  reported := []
  delivered := []

/-- Too far from `seconds` to leave it there. -/
def Moves (seconds toleranceSec : ℚ) (s : HostVideo) : Prop :=
  toleranceSec < |s.video.currentTime - seconds|

instance (seconds toleranceSec : ℚ) (s : HostVideo) : Decidable (s.Moves seconds toleranceSec) :=
  inferInstanceAs (Decidable (_ < _))

/-- The state after, and whether the element was moved. -/
def seekProgrammatically (seconds toleranceSec : ℚ) (s : HostVideo) : HostVideo × Bool :=
  if s.Moves seconds toleranceSec then
    ({ s with
      flags := if HAVE_METADATA ≤ s.video.readyState then { s.flags with seek := true } else s.flags
      video := s.video.setCurrentTime seconds .app }, true)
  else (s, false)

/-- The browser decides whether it refuses. -/
def playProgrammatically (refused : Bool) (s : HostVideo) : HostVideo :=
  { s with
    flags := if s.video.paused then { s.flags with play := true } else s.flags
    video := if refused then s.video else s.video.play .app
    promises := s.promises ++ [⟨refused, s.video.paused⟩] }

def pauseProgrammatically (s : HostVideo) : HostVideo :=
  { s with
    flags := if s.video.paused then s.flags else { s.flags with pause := true }
    video := s.video.pause .app }

/-- Milliseconds, rounded as `Math.round` does. -/
def positionMs (v : HTMLVideoElement) : ℤ := max 0 ⌊v.currentTime * 1000 + 1 / 2⌋

def onUserChange (kind : NativeControlKind) (s : HostVideo) : HostVideo :=
  { s with reported := s.reported ++ [(kind, positionMs s.video)] }

def onSeeked (s : HostVideo) : HostVideo :=
  if s.flags.seek then { s with flags := { s.flags with seek := false } } else s.onUserChange .seek

def onPlay (s : HostVideo) : HostVideo :=
  let s := { s with flags := { s.flags with pause := false } }
  if s.flags.play then { s with flags := { s.flags with play := false } } else s.onUserChange .play

def onPause (s : HostVideo) : HostVideo :=
  let s := { s with flags := { s.flags with play := false } }
  if s.flags.pause then { s with flags := { s.flags with pause := false } }
    else s.onUserChange .pause

/-! ### What happens to the element -/

/-- No promise is fresh any more. -/
def stale (s : HostVideo) : HostVideo :=
  { s with promises := s.promises.map ({ · with fresh := false }) }

/-- The handler that listens to the event. -/
def handle : NativeControlKind → HostVideo → HostVideo
  | .seek, s => s.onSeeked
  | .play, s => s.onPlay.stale
  | .pause, s => s.onPause.stale

/-- An event leaves the queue. -/
def pop (e : DomEvent) (rest : List DomEvent) (s : HostVideo) : HostVideo :=
  { s with
    video := { s.video with queue := rest }
    delivered := s.delivered ++ [(e, positionMs s.video)] }

/-- The oldest event reaches its handler. -/
def deliver (s : HostVideo) : Option HostVideo :=
  match s.video.queue with
  | [] => none
  | e :: rest => some (handle e.kind (s.pop e rest))

/-- An outstanding promise is rejected, and its `catch` lowers the flag. -/
def reject (i : ℕ) (s : HostVideo) : Option HostVideo :=
  s.promises[i]?.map fun _ => stale { s with
    flags := { s.flags with play := false }
    promises := s.promises.eraseIdx i }

/-- The promise of a `play()` that was not refused is resolved. -/
def resolve (i : ℕ) (s : HostVideo) : Option HostVideo :=
  match s.promises[i]? with
  | some ⟨false, _⟩ => some { s with promises := s.promises.eraseIdx i }
  | _ => none

end HostVideo

/-- What happens: a call of the app, a gesture of the user, or something the browser does. -/
inductive HostInput where
  | seekProgrammatically (seconds toleranceSec : ℚ)
  | playProgrammatically (refused : Bool)
  | pauseProgrammatically
  | userSeek (seconds : ℚ)
  | userPlay
  | userPause
  | ready (readyState : ℕ)
  | advance (currentTime : ℚ)
  | seekEnds
  | deliver
  | reject (i : ℕ)
  | resolve (i : ℕ)

/-- The element under the host. -/
def hostMachine : Machine HostVideo HostInput
  | s, .seekProgrammatically seconds toleranceSec =>
    some (s.seekProgrammatically seconds toleranceSec).1
  | s, .playProgrammatically refused => some (s.playProgrammatically refused)
  | s, .pauseProgrammatically => some s.pauseProgrammatically
  | s, .userSeek seconds => some { s with video := s.video.setCurrentTime seconds .user }
  | s, .userPlay => some { s with video := s.video.play .user }
  | s, .userPause => some { s with video := s.video.pause .user }
  | s, .ready readyState =>
    if s.video.readyState ≤ readyState then some
      { s with video := { s.video with readyState := readyState } }
    else none
  | s, .advance currentTime => some { s with video := { s.video with currentTime := currentTime } }
  | s, .seekEnds => s.video.seekEnds.map fun v => { s with video := v }
  | s, .deliver => s.deliver
  | s, .reject i => s.reject i
  | s, .resolve i => s.resolve i

/-- `applyPlaybackToVideo`: the wire has milliseconds. -/
def applyPlaybackToVideo (kind : NativeControlKind) (mediaPositionMs : ℤ) (refused : Bool)
    (s : HostVideo) :
    HostVideo :=
  let s := (s.seekProgrammatically (mediaPositionMs / 1000) (1 / 100)).1
  match kind with
  | .play => s.playProgrammatically refused
  | .pause => s.pauseProgrammatically
  | .seek => s

/-- The calls that `applyPlaybackToVideo` makes. -/
def playbackCalls (kind : NativeControlKind) (mediaPositionMs : ℤ) (refused : Bool) :
    List HostInput :=
  .seekProgrammatically (mediaPositionMs / 1000) (1 / 100) :: match kind with
    | .play => [.playProgrammatically refused]
    | .pause => [.pauseProgrammatically]
    | .seek => []

/-- A command that is applied is one of the runs. -/
lemma play_playbackCalls (kind : NativeControlKind) (mediaPositionMs : ℤ) (refused : Bool)
    (s : HostVideo) :
    hostMachine.play Machine.free s (playbackCalls kind mediaPositionMs refused) =
      some (applyPlaybackToVideo kind mediaPositionMs refused s) := by
  cases kind <;> rfl

/-! ### What the broadcast promises -/

/-- Nothing of the element is outstanding. -/
structure HostVideo.AtRest (s : HostVideo) : Prop where
  queue : s.video.queue = []
  seeking : s.video.seeking = none
  promises : s.promises = []

/-- **The feedback loop is cut**: of the events that were fired, in their order, those of the user's
are reported with the position at their delivery and no others are, and at rest no flag is up. -/
structure HostVideo.Faithful (s : HostVideo) : Prop where
  fired : s.delivered.map (·.1) ++ s.video.queue = s.video.fired
  reported : s.reported = (s.delivered.filter (·.1.cause = .user)).map fun d => (d.1.kind, d.2)
  lowered : s.AtRest → s.flags = ⟨false, false, false⟩

/-- The changes that meet no other's event: the app seeks when no `seeked` waits, and plays or
pauses when no press waits; the user does not seek over a seek of the app's in flight; no press of
the user's to play is delivered between a refused `play()` and its rejection; and no promise is
rejected before the event of the app's own play. -/
def apart (s : HostVideo) : HostInput → Prop
  | .seekProgrammatically seconds toleranceSec =>
    s.Moves seconds toleranceSec → HAVE_METADATA ≤ s.video.readyState → s.video.seeks = []
  | .playProgrammatically refused => s.video.paused = true → refused = false → s.video.presses = []
  | .pauseProgrammatically => s.video.paused = false → s.video.presses = []
  | .userSeek _ => HAVE_METADATA ≤ s.video.readyState → s.video.seeking ≠ some .app
  | .deliver => s.video.queue.head? = some ⟨.play, .user⟩ → ⟨true, true⟩ ∉ s.promises
  | .reject _ => ⟨.play, .app⟩ ∉ s.video.queue
  | _ => True

instance (s : HostVideo) (i : HostInput) : Decidable (apart s i) := by
  cases i <;> unfold apart <;> infer_instance

/-! ### The marks -/

namespace HostVideo

/-- Only the first may be the app's. -/
def AppFirst (l : List DomEvent) : Prop := ∀ e ∈ l.tail, e.cause = .user

lemma AppFirst.concat {l : List DomEvent} (h : AppFirst l) {e : DomEvent}
    (he : l = [] ∨ e.cause = .user) :
    AppFirst (l ++ [e]) := by
  intro e' he'
  rcases l with _ | ⟨first, rest⟩
  · exact absurd he' List.not_mem_nil
  rw [List.cons_append, List.tail_cons] at he'
  rcases List.mem_append.1 he' with hrest | hlast
  · exact h e' hrest
  · rw [List.mem_singleton.1 hlast]
    exact he.resolve_left (List.cons_ne_nil _ _)

lemma AppFirst.tail {l : List DomEvent} (h : AppFirst l) : AppFirst l.tail :=
  fun e he => h e (List.mem_of_mem_tail he)

lemma AppFirst.notMem {l : List DomEvent} (h : AppFirst l) (kind : NativeControlKind) :
    (⟨kind, .app⟩ : DomEvent) ∉ l.tail := by
  intro hmem
  cases h _ hmem

/-- What every step keeps: a flag is up as long as an event of the app's own change is to come, or a
refused promise is to lower it; and of the events of a kind only the first may be the app's. -/
structure Inv (s : HostVideo) : Prop where
  fired : s.delivered.map (·.1) ++ s.video.queue = s.video.fired
  reported : s.reported = (s.delivered.filter (·.1.cause = .user)).map fun d => (d.1.kind, d.2)
  seek : s.flags.seek = true ↔ s.video.seeking = some .app ∨ ⟨.seek, .app⟩ ∈ s.video.queue
  play : s.flags.play = true ↔ ⟨.play, .app⟩ ∈ s.video.queue ∨ ⟨true, true⟩ ∈ s.promises
  pause : s.flags.pause = true ↔ ⟨.pause, .app⟩ ∈ s.video.queue
  seeks : AppFirst s.video.seeks
  presses : AppFirst s.video.presses
  alone : s.video.seeking = some .app → s.video.seeks = []

lemma inv_start (currentTime : ℚ) (paused : Bool) (readyState : ℕ) :
    (start currentTime paused readyState).Inv where
  fired := rfl
  reported := rfl
  seek := by simp [start]
  play := by simp [start]
  pause := by simp [start]
  seeks := fun e he => absurd he List.not_mem_nil
  presses := fun e he => absurd he List.not_mem_nil
  alone := fun _ => rfl

variable {s s' : HostVideo}

lemma Inv.faithful (h : s.Inv) : s.Faithful := by
  refine ⟨h.fired, h.reported, fun hrest => ?_⟩
  have hseek : s.flags.seek = false := by
    rw [← Bool.not_eq_true, h.seek, hrest.seeking, hrest.queue]
    simp
  have hplay : s.flags.play = false := by
    rw [← Bool.not_eq_true, h.play, hrest.queue, hrest.promises]
    simp
  have hpause : s.flags.pause = false := by
    rw [← Bool.not_eq_true, h.pause, hrest.queue]
    simp
  cases hf : s.flags with
  | mk seek play pause =>
    rw [hf] at hseek hplay hpause
    cases hseek
    cases hplay
    cases hpause
    rfl

end HostVideo

/-! ### Changes -/

namespace HTMLVideoElement

variable (v : HTMLVideoElement) (kind : NativeControlKind) (cause : Cause)

@[simp] lemma queue_fire : (v.fire kind cause).queue = v.queue ++ [⟨kind, cause⟩] := rfl
@[simp] lemma fired_fire : (v.fire kind cause).fired = v.fired ++ [⟨kind, cause⟩] := rfl
@[simp] lemma seeking_fire : (v.fire kind cause).seeking = v.seeking := rfl

lemma presses_fire {kind : NativeControlKind} (hkind : kind ≠ .seek) :
    (v.fire kind cause).presses = v.presses ++ [⟨kind, cause⟩] := by
  simp [presses, List.filter_append, hkind]

lemma seeks_fire {kind : NativeControlKind} (hkind : kind ≠ .seek) :
    (v.fire kind cause).seeks = v.seeks := by
  simp [seeks, List.filter_append, hkind]

lemma presses_fire_seek : (v.fire .seek cause).presses = v.presses := by
  simp [presses, List.filter_append]

lemma seeks_fire_seek : (v.fire .seek cause).seeks = v.seeks ++ [⟨.seek, cause⟩] := by
  simp [seeks, List.filter_append]

end HTMLVideoElement

namespace HostVideo

variable {s s' : HostVideo}

/-- A press of the user's. -/
lemma Inv.userPress (h : s.Inv) {kind : NativeControlKind} (hkind : kind ≠ .seek) (paused : Bool) :
    Inv { s with video := HTMLVideoElement.fire kind .user { s.video with paused := paused } } where
  fired := by
    rw [HTMLVideoElement.queue_fire, ← List.append_assoc, h.fired]
    rfl
  reported := h.reported
  seek := by simpa using h.seek
  play := by simpa using h.play
  pause := by simpa using h.pause
  seeks := by
    rw [HTMLVideoElement.seeks_fire _ _ hkind]
    exact h.seeks
  presses := by
    rw [HTMLVideoElement.presses_fire _ _ hkind]
    exact AppFirst.concat h.presses (.inr rfl)
  alone := by
    rw [HTMLVideoElement.seeks_fire _ _ hkind]
    exact h.alone

/-- A press of the app's, marked, when none waits. -/
lemma Inv.appPlay (h : s.Inv) (hnone : s.video.presses = []) (promises : List PlayPromise) :
    Inv { s with
      flags := { s.flags with play := true }
      video := HTMLVideoElement.fire .play .app { s.video with paused := false }
      promises := promises } where
  fired := by
    rw [HTMLVideoElement.queue_fire, ← List.append_assoc, h.fired]
    rfl
  reported := h.reported
  seek := by simpa using h.seek
  play := by simp
  pause := by simpa using h.pause
  seeks := by
    rw [HTMLVideoElement.seeks_fire _ _ (by decide)]
    exact h.seeks
  presses := by
    rw [HTMLVideoElement.presses_fire _ _ (by decide)]
    exact AppFirst.concat h.presses (.inl hnone)
  alone := by
    rw [HTMLVideoElement.seeks_fire _ _ (by decide)]
    exact h.alone

lemma Inv.appPause (h : s.Inv) (hnone : s.video.presses = []) :
    Inv { s with
      flags := { s.flags with pause := true }
      video := HTMLVideoElement.fire .pause .app { s.video with paused := true } } where
  fired := by
    rw [HTMLVideoElement.queue_fire, ← List.append_assoc, h.fired]
    rfl
  reported := h.reported
  seek := by simpa using h.seek
  play := by simpa using h.play
  pause := by simp
  seeks := by
    rw [HTMLVideoElement.seeks_fire _ _ (by decide)]
    exact h.seeks
  presses := by
    rw [HTMLVideoElement.presses_fire _ _ (by decide)]
    exact AppFirst.concat h.presses (.inl hnone)
  alone := by
    rw [HTMLVideoElement.seeks_fire _ _ (by decide)]
    exact h.alone

lemma Inv.playProgrammatically (h : s.Inv) {refused : Bool}
    (hg : apart s (.playProgrammatically refused)) :
    (s.playProgrammatically refused).Inv := by
  rw [HostVideo.playProgrammatically]
  by_cases hpaused : s.video.paused = true
  · cases refused with
    | true =>
      -- the flag has no event to come, but the promise will lower it
      simp only [hpaused, if_true]
      exact { h with play := by simp }
    | false =>
      simp only [hpaused, if_true, Bool.false_eq_true, if_false, HTMLVideoElement.play]
      exact h.appPlay (hg hpaused rfl) _
  · rw [Bool.not_eq_true] at hpaused
    have hplay : (if refused = true then s.video else s.video.play .app) = s.video := by
      rw [HTMLVideoElement.play, hpaused]
      split <;> rfl
    rw [hplay]
    simp only [hpaused, Bool.false_eq_true, if_false]
    exact { h with play := by simpa using h.play }

lemma Inv.pauseProgrammatically (h : s.Inv) (hg : apart s .pauseProgrammatically) :
    s.pauseProgrammatically.Inv := by
  rw [HostVideo.pauseProgrammatically, HTMLVideoElement.pause]
  cases hpaused : s.video.paused with
  | true => exact h
  | false => exact h.appPause (hg hpaused)

lemma Inv.seekProgrammatically (h : s.Inv) {seconds toleranceSec : ℚ}
    (hg : apart s (.seekProgrammatically seconds toleranceSec)) :
    (s.seekProgrammatically seconds toleranceSec).1.Inv := by
  rw [HostVideo.seekProgrammatically]
  by_cases hmoves : s.Moves seconds toleranceSec
  · rw [if_pos hmoves]
    by_cases hready : HAVE_METADATA ≤ s.video.readyState
    · simp only [if_pos hready, HTMLVideoElement.setCurrentTime]
      exact { h with
        seek := by simp
        alone := fun _ => hg hmoves hready }
    · simp only [if_neg hready, HTMLVideoElement.setCurrentTime]
      exact { h with }
  · rw [if_neg hmoves]
    exact h

lemma Inv.userSeek (h : s.Inv) {seconds : ℚ} (hg : apart s (.userSeek seconds)) :
    Inv { s with video := s.video.setCurrentTime seconds .user } := by
  by_cases hready : HAVE_METADATA ≤ s.video.readyState
  · simp only [HTMLVideoElement.setCurrentTime, if_pos hready]
    exact { h with
      seek := by
        have hseeking := hg hready
        rw [h.seek]
        simp [hseeking]
      alone := fun hc => absurd hc (by simp) }
  · simp only [HTMLVideoElement.setCurrentTime, if_neg hready]
    exact { h with }

/-- The seek in flight is through: its event takes its place. -/
lemma Inv.seekEnds (h : s.Inv) {v : HTMLVideoElement} (hv : s.video.seekEnds = some v) :
    Inv { s with video := v } := by
  obtain ⟨cause, hseeking, rfl⟩ := Option.map_eq_some_iff.1 hv
  exact {
    fired := by
      rw [HTMLVideoElement.queue_fire, ← List.append_assoc, h.fired]
      rfl
    reported := h.reported
    seek := by
      rw [h.seek, hseeking]
      cases cause <;> simp
    play := by simpa using h.play
    pause := by simpa using h.pause
    seeks := by
      rw [HTMLVideoElement.seeks_fire_seek]
      refine AppFirst.concat h.seeks ?_
      cases cause with
      | app => exact .inl (h.alone hseeking)
      | user => exact .inr rfl
    presses := by
      rw [HTMLVideoElement.presses_fire_seek]
      exact h.presses
    alone := fun hc => absurd hc (by simp) }

/-! ### Deliveries -/

/-- What `onUserChange` hears of an event. -/
def told (e : DomEvent) (v : HTMLVideoElement) : List (NativeControlKind × ℤ) :=
  if e.cause = .user then [(e.kind, positionMs v)] else []

lemma onSeeked_eq (cause : Cause) (h : s.flags.seek = true ↔ cause = .app) :
    s.onSeeked = { s with
      flags := { s.flags with seek := false }
      reported := s.reported ++ told ⟨.seek, cause⟩ s.video } := by
  rw [onSeeked]
  cases cause with
  | app => simp [h.2 rfl, told]
  | user =>
    have hdown : s.flags.seek = false := by simpa using h
    have hflags : { s.flags with seek := false } = s.flags := by rw [← hdown]
    rw [hflags, hdown]
    rfl

/-- The flag that an event takes away. -/
def Flags.of (f : Flags) : NativeControlKind → Bool
  | .seek => f.seek
  | .play => f.play
  | .pause => f.pause

/-- A press leaves both flags of the presses down. -/
lemma handle_press {kind : NativeControlKind} (hkind : kind ≠ .seek) (cause : Cause)
    (h : Flags.of s.flags kind = true ↔ cause = .app) :
    handle kind s = stale { s with
      flags := { s.flags with play := false, pause := false }
      reported := s.reported ++ told ⟨kind, cause⟩ s.video } := by
  cases kind with
  | seek => exact absurd rfl hkind
  | play =>
    rw [handle, onPlay]
    cases cause with
    | app =>
      have hup : s.flags.play = true := h.2 rfl
      simp [hup, told]
    | user =>
      have hdown : s.flags.play = false := by simpa [Flags.of] using h
      simp only [hdown]
      rfl
  | pause =>
    rw [handle, onPause]
    cases cause with
    | app =>
      have hup : s.flags.pause = true := h.2 rfl
      simp [hup, told]
    | user =>
      have hdown : s.flags.pause = false := by simpa [Flags.of] using h
      simp only [hdown]
      rfl

lemma Inv.reported_pop (h : s.Inv) (e : DomEvent) (rest : List DomEvent) :
    s.reported ++ told e s.video =
      ((s.pop e rest).delivered.filter (·.1.cause = .user)).map fun d => (d.1.kind, d.2) := by
  rw [pop, List.filter_append, List.map_append, ← h.reported]
  cases e with
  | mk kind cause => cases cause <;> rfl

lemma Inv.fired_pop (h : s.Inv) {e : DomEvent} {rest : List DomEvent}
    (hq : s.video.queue = e :: rest) :
    (s.pop e rest).delivered.map (·.1) ++ rest = s.video.fired := by
  rw [← h.fired, hq, pop, List.map_append, List.append_assoc]
  rfl

lemma Inv.deliverSeeked (h : s.Inv) {cause : Cause} {rest : List DomEvent}
    (hq : s.video.queue = ⟨.seek, cause⟩ :: rest) :
    (handle .seek (s.pop ⟨.seek, cause⟩ rest)).Inv := by
  have hseeks : s.video.seeks = ⟨.seek, cause⟩ :: rest.filter (·.kind = .seek) := by
    rw [HTMLVideoElement.seeks, hq]
    rfl
  have hpresses : s.video.presses = rest.filter (·.kind ≠ .seek) := by
    rw [HTMLVideoElement.presses, hq]
    rfl
  have hseeking : s.video.seeking ≠ some .app := fun hc => by simp [h.alone hc] at hseeks
  have hrest : (⟨.seek, .app⟩ : DomEvent) ∉ rest := by
    have := h.seeks.notMem .seek
    rw [hseeks] at this
    simpa using this
  have hmark : s.flags.seek = true ↔ cause = .app := by
    rw [h.seek, hq]
    simp [hseeking, hrest, eq_comm]
  rw [handle, onSeeked_eq (s := s.pop ⟨.seek, cause⟩ rest) cause hmark]
  exact {
    fired := h.fired_pop hq
    reported := h.reported_pop _ rest
    seek := by simp [pop, hseeking, hrest]
    play := by simpa [pop, hq] using h.play
    pause := by simpa [pop, hq] using h.pause
    seeks := by
      have := h.seeks.tail
      rw [hseeks] at this
      exact this
    presses := by
      have := h.presses
      rw [hpresses] at this
      exact this
    alone := fun hc => absurd hc hseeking }

lemma Inv.deliverPress (h : s.Inv) {kind : NativeControlKind} (hkind : kind ≠ .seek) {cause : Cause}
    {rest : List DomEvent} (hq : s.video.queue = ⟨kind, cause⟩ :: rest)
    (hfresh : kind = .play → cause = .user → ⟨true, true⟩ ∉ s.promises) :
    (handle kind (s.pop ⟨kind, cause⟩ rest)).Inv := by
  have hseeks : s.video.seeks = rest.filter (·.kind = .seek) := by
    simp [HTMLVideoElement.seeks, hq, hkind]
  have hpresses : s.video.presses = ⟨kind, cause⟩ :: rest.filter (·.kind ≠ .seek) := by
    simp [HTMLVideoElement.presses, hq, hkind]
  have hrest : ∀ k ≠ NativeControlKind.seek, (⟨k, .app⟩ : DomEvent) ∉ rest := by
    intro k hk
    have := h.presses.notMem k
    rw [hpresses] at this
    simpa [hk] using this
  have hmark : Flags.of s.flags kind = true ↔ cause = .app := by
    cases kind with
    | seek => exact absurd rfl hkind
    | play =>
      rw [Flags.of, h.play, hq]
      cases cause with
      | app => simp
      | user => simp [hrest, hfresh rfl rfl]
    | pause =>
      rw [Flags.of, h.pause, hq]
      simp [hrest, eq_comm]
  rw [handle_press (s := s.pop ⟨kind, cause⟩ rest) hkind cause hmark]
  exact {
    fired := h.fired_pop hq
    reported := h.reported_pop _ rest
    seek := by simpa [pop, stale, hq, hkind.symm] using h.seek
    play := by simp [pop, stale, hrest]
    pause := by simp [pop, stale, hrest]
    seeks := by
      have := h.seeks
      rw [hseeks] at this
      exact this
    presses := by
      have := h.presses.tail
      rw [hpresses] at this
      exact this
    alone := fun hc => by
      have := h.alone hc
      rw [hseeks] at this
      exact this }

lemma Inv.deliver (h : s.Inv) (hg : apart s .deliver) (hs' : s.deliver = some s') : s'.Inv := by
  rw [HostVideo.deliver] at hs'
  cases hq : s.video.queue with
  | nil => simp [hq] at hs'
  | cons e rest =>
    rw [hq] at hs'
    cases hs'
    rcases e with ⟨kind, cause⟩
    by_cases hkind : kind = .seek
    · subst hkind
      exact h.deliverSeeked hq
    · refine h.deliverPress hkind hq ?_
      rintro rfl rfl
      exact hg (by rw [hq]; rfl)

/-! ### Promises -/

lemma Inv.reject (h : s.Inv) {i : ℕ} (hg : apart s (.reject i)) (hs' : s.reject i = some s') :
    s'.Inv := by
  obtain ⟨p, -, rfl⟩ := Option.map_eq_some_iff.1 hs'
  have hnone : (⟨.play, .app⟩ : DomEvent) ∉ s.video.queue := hg
  exact { h with play := by simp [stale, hnone] }

/-- A promise that was not refused has no flag to lower. -/
lemma mem_eraseIdx_accepted {l : List PlayPromise} {i : ℕ} {fresh : Bool}
    (hi : l[i]? = some ⟨false, fresh⟩) :
    ⟨true, true⟩ ∈ l.eraseIdx i ↔ ⟨true, true⟩ ∈ l := by
  constructor
  · exact List.mem_of_mem_eraseIdx
  · intro hmem
    obtain ⟨j, hj⟩ := List.mem_iff_getElem?.1 hmem
    refine List.mem_eraseIdx_iff_getElem?.2 ⟨j, ?_, hj⟩
    rintro rfl
    rw [hi] at hj
    cases hj

lemma Inv.resolve (h : s.Inv) {i : ℕ} (hs' : s.resolve i = some s') : s'.Inv := by
  rw [HostVideo.resolve] at hs'
  split at hs'
  · rename_i fresh hi
    cases hs'
    exact { h with play := by rw [h.play, mem_eraseIdx_accepted hi] }
  · cases hs'

end HostVideo

open HostVideo in
/-- **Every input.** -/
lemma HostVideo.Inv.step {s s' : HostVideo} (h : s.Inv) {i : HostInput} (hg : apart s i)
    (hs' : hostMachine s i = some s') : s'.Inv := by
  cases i with
  | seekProgrammatically seconds toleranceSec =>
    cases hs'
    exact h.seekProgrammatically hg
  | playProgrammatically refused =>
    cases hs'
    exact h.playProgrammatically hg
  | pauseProgrammatically =>
    cases hs'
    exact h.pauseProgrammatically hg
  | userSeek seconds =>
    cases hs'
    exact h.userSeek hg
  | userPlay =>
    cases hs'
    rw [HTMLVideoElement.play]
    split
    · exact h.userPress (by decide) false
    · exact h
  | userPause =>
    cases hs'
    rw [HTMLVideoElement.pause]
    split
    · exact h
    · exact h.userPress (by decide) true
  | ready readyState =>
    rw [hostMachine] at hs'
    split at hs'
    · cases hs'
      exact { h with }
    · cases hs'
  | advance currentTime =>
    cases hs'
    exact { h with }
  | seekEnds =>
    obtain ⟨v, hv, rfl⟩ := Option.map_eq_some_iff.1 hs'
    exact h.seekEnds hv
  | deliver => exact h.deliver hg hs'
  | reject i => exact h.reject hg hs'
  | resolve i => exact h.resolve hs'

/-! ### Runs -/

/-- **Feedback.** As long as the changes are apart, exactly the user's events are reported and no
mark is left behind. -/
theorem host_feedback {currentTime : ℚ} {paused : Bool} {readyState : ℕ} {s : HostVideo}
    (r : hostMachine.Reaches apart (HostVideo.start currentTime paused readyState) s) :
    s.Faithful :=
  HostVideo.Inv.faithful
    (r.invariant (I := HostVideo.Inv) (HostVideo.inv_start _ _ _) fun _ _ _ h hg hs' =>
      h.step hg hs')

/-- The app plays and the user pauses, the app seeks, and a `play()` is refused. -/
def hostRun : List HostInput :=
  [.playProgrammatically false, .userPause, .deliver, .deliver,
    .seekProgrammatically 60 (1 / 100), .resolve 0, .playProgrammatically true, .seekEnds, .deliver,
    .reject 0, .userPlay, .deliver]

theorem host_feedback_run : ∃ s : HostVideo, s.Faithful ∧ s.AtRest ∧
    s.reported = [(.pause, 0), (.play, 60000)] := by
  have hrun : ∃ s, hostMachine.Reaches apart (HostVideo.start 0 true 4) s ∧ s.AtRest ∧
      s.reported = [(.pause, 0), (.play, 60000)] :=
    Machine.exists_reaches_of_play hostRun
      (fun s => s.video.queue = [] ∧ s.video.seeking = none ∧ s.promises = [] ∧
        s.reported = [(.pause, 0), (.play, 60000)])
      (fun s hs => by
        obtain ⟨hq, hseeking, hp, hr⟩ := of_decide_eq_true hs
        exact ⟨⟨hq, hseeking, hp⟩, hr⟩) (by decide +kernel)
  obtain ⟨s, hr, hs⟩ := hrun
  exact ⟨s, host_feedback hr, hs⟩

/-- The app plays and pauses before the first event is delivered: its pause is reported. -/
theorem not_host_feedback :
    ¬ ∀ s, hostMachine.Reaches Machine.free (HostVideo.start 0 true 4) s → s.Faithful := by
  intro h
  have hrun : ∃ s, hostMachine.Reaches Machine.free (HostVideo.start 0 true 4) s ∧
      (∀ d ∈ s.delivered, d.1.cause = .app) ∧ s.reported = [(.pause, 0)] :=
    Machine.exists_reaches_of_play [.playProgrammatically false, .pauseProgrammatically,
      .deliver, .deliver]
      (fun s => (∀ d ∈ s.delivered, d.1.cause = .app) ∧ s.reported = [(.pause, 0)])
      (fun s hs => of_decide_eq_true hs) (by decide +kernel)
  obtain ⟨s, hr, hd, hs⟩ := hrun
  have hrep := (h s hr).reported
  rw [hs, List.filter_eq_nil_iff.2 fun d hmem => by simp [hd d hmem]] at hrep
  cases hrep

end Locast.Client.NativeControls
