import Locast.Client.SharedMedia

/-!
# Runs of the shared-media bridge

In every orderly run the bridge keeps its promises.  The books (`Bridge.Books`) say that the marks
are those of the calls of this stay, and that calls, timers and items agree; an item that has not
come to its end is in the hands of a call or a timer (`Bridge.Fine`).
-/

namespace Locast.Client.SharedMedia

open Locast.Lib

/-! ### Lists without repetitions -/

/-- Of items with different keys, one at most has a given key. -/
lemma length_filter_le_one {α κ : Type*} [DecidableEq κ] (f : α → κ) {l : List α}
    (h : (l.map f).Nodup) (k : κ) : (l.filter fun x => f x = k).length ≤ 1 := by
  induction l with
  | nil => exact Nat.zero_le 1
  | cons x l ih =>
    obtain ⟨hx, hl⟩ := List.nodup_cons.1 h
    by_cases hk : f x = k
    · have hnone : (l.filter fun y => f y = k) = [] := by
        refine List.filter_eq_nil_iff.2 fun y hy hyk => hx (List.mem_map.2 ⟨y, hy, ?_⟩)
        rw [of_decide_eq_true hyk, hk]
      rw [List.filter_cons_of_pos (by simpa using hk), hnone]
      exact Nat.le_refl 1
    · rw [List.filter_cons_of_neg (by simpa using hk)]
      exact ih hl

lemma perm_eraseIdx {α : Type*} {l : List α} {k : ℕ} {x : α} (h : l[k]? = some x) :
    l.Perm (x :: l.eraseIdx k) := by
  obtain ⟨hlt, rfl⟩ := List.getElem?_eq_some_iff.1 h
  exact (List.getElem_cons_eraseIdx_perm hlt).symm

namespace Bridge

variable {s s' : Bridge} {told told' : String → Option DownloadState} {roomId mediaId m : String}

/-! ### The books -/

/-- **The books of a bridge.** -/
structure Books (s : Bridge) : Prop where
  marks : s.roomId ≠ none → ∀ m, m ∈ s.inflight ↔ s.asked m
  current : ∀ c ∈ s.calls, c.stay = s.stay → s.roomId = some c.roomId
  stays : ∀ c ∈ s.calls, c.stay ≤ s.stay
  oneCall : ((s.calls.filter fun c => c.stay = s.stay).map (·.mediaId)).Nodup
  oneTimer : (s.timers.map (·.mediaId)).Nodup
  retries : ∀ t ∈ s.timers, t.attempt ≠ 0
  timersRoom : ∀ roomId, s.roomId = some roomId → ∀ t ∈ s.timers, t.roomId = roomId
  status : ∀ m, s.asked m → s.items m ≠ none
  empty : s.roomId = none → s.manifest = none ∧ ∀ m, s.items m = none

/-- An item in this state needs neither a call nor a timer. -/
def Excused (told : String → Option DownloadState) : SharedItemStatus → Prop
  | .ready .. | .error _ => True
  | .downloading d _ => ¬(told d).any (·.isOver)
  | _ => False

/-- An item that has a status is in hand. -/
def Fine (told : String → Option DownloadState) (s : Bridge) (m : String) : Prop :=
  ∀ st, s.items m = some st → Excused told st ∨ s.asked m ∨ s.armed m

/-- On a viewer, every item of the manifest has a status. -/
def Listed (s : Bridge) : Prop := s.isHost = false → ∀ m ∈ s.manifest.getD [], s.items m ≠ none

/-- **The invariant of a bridge.** -/
structure Inv (told : String → Option DownloadState) (s : Bridge) : Prop where
  books : s.Books
  fine : ∀ m, s.Fine told m
  listed : s.Listed

/-- Local items are still local, unless another stay has begun. -/
def KeepsLocal (s s' : Bridge) : Prop :=
  s'.stay = s.stay → ∀ m, BridgeRun.localIn s m → BridgeRun.localIn s' m

lemma inv_start : start.Inv fun _ => none where
  books :=
    { marks := fun h => absurd rfl h
      current := fun _ h => by cases h
      stays := fun _ h => by cases h
      oneCall := .nil
      oneTimer := .nil
      retries := fun _ h => by cases h
      timersRoom := fun _ h => by cases h
      status := fun _ ⟨_, h, _⟩ => by cases h
      empty := fun _ => ⟨rfl, fun _ => rfl⟩ }
  fine := fun _ _ h => by cases h
  listed := fun _ _ h => by cases h

/-- Nothing depends on the tasks, nor on the room that a manifest was fetched for. -/
lemma Inv.tasks (h : s.Inv told) (fetchedFor : Option String) (tasks : List Task) :
    { s with fetchedFor, tasks }.Inv told where
  books := ⟨h.books.marks, h.books.current, h.books.stays, h.books.oneCall, h.books.oneTimer,
    h.books.retries, h.books.timersRoom, h.books.status, h.books.empty⟩
  fine := h.fine
  listed := h.listed

lemma refreshOver_eq (s : Bridge) (next : Option (String × Bool)) :
    ∃ tasks, s.refreshOver next = { s with tasks } := by
  cases next with
  | none => exact ⟨s.tasks, rfl⟩
  | some next => exact ⟨_, rfl⟩

lemma refresh_eq (s : Bridge) (next : Option (String × Bool)) :
    ∃ tasks, s.refresh next = { s with tasks } := by
  unfold refresh
  split
  · exact refreshOver_eq s next
  · exact ⟨_, rfl⟩

lemma resumed_eq (s : Bridge) (roomId : String) (isHost : Bool) :
    ∃ fetchedFor tasks, s.resumed roomId isHost = { s with fetchedFor, tasks } := by
  unfold resumed
  split
  · exact ⟨s.fetchedFor, s.tasks, rfl⟩
  split
  · exact ⟨s.fetchedFor, s.tasks, rfl⟩
  · exact ⟨_, _, rfl⟩

lemma Inv.refreshOver (h : s.Inv told) (next : Option (String × Bool)) :
    (s.refreshOver next).Inv told := by
  obtain ⟨tasks, heq⟩ := refreshOver_eq s next
  exact heq ▸ h.tasks s.fetchedFor tasks

lemma Inv.refresh (h : s.Inv told) (next : Option (String × Bool)) : (s.refresh next).Inv told := by
  obtain ⟨tasks, heq⟩ := refresh_eq s next
  exact heq ▸ h.tasks s.fetchedFor tasks

/-! ### Another stay -/

/-- **A store that was reset**, with the timers that may still be armed. -/
lemma inv_reset (roomId : Option String) (isHost : Bool) (hstays : ∀ c ∈ s.calls, c.stay ≤ s.stay)
    (htimers : (s.timers.map (·.mediaId)).Nodup) (hretries : ∀ t ∈ s.timers, t.attempt ≠ 0)
    (hclear : roomId ≠ none → s.timers = [] ∧ s.inflight = ∅) :
    (s.reset roomId isHost).Inv told := by
  have hnew : ∀ c ∈ s.calls, c.stay ≠ s.stay + 1 := fun c hc heq => by
    have hle := hstays c hc
    omega
  have hnobody (m : String) : ¬(s.reset roomId isHost).asked m := fun ⟨c, hc, hstay, _⟩ =>
    hnew c hc hstay
  have hnone : (s.calls.filter fun c => c.stay = s.stay + 1) = [] :=
    List.filter_eq_nil_iff.2 fun c hc => by simpa using hnew c hc
  refine ⟨⟨fun hroom m => ?_, fun c hc hstay => absurd hstay (hnew c hc),
    fun c hc => Nat.le_succ_of_le (hstays c hc), ?_, htimers, hretries, fun r hr t ht => ?_,
    fun m hm => absurd hm (hnobody m), fun _ => ⟨rfl, fun _ => rfl⟩⟩,
    fun _ _ hst => (by cases hst), fun _ _ hm => (by cases hm)⟩
  · have hempty : (s.reset roomId isHost).inflight = ∅ := (hclear hroom).2
    rw [hempty]
    exact iff_of_false (Finset.notMem_empty m) (hnobody m)
  · change ((s.calls.filter fun c => c.stay = s.stay + 1).map (·.mediaId)).Nodup
    rw [hnone]
    exact .nil
  · have hroom : roomId = some r := hr
    have hgone : (s.reset roomId isHost).timers = [] :=
      (hclear (by rw [hroom]; exact Option.some_ne_none r)).1
    rw [hgone] at ht
    cases ht

/-- **The first part of `onSummary`.** -/
lemma Inv.followed (h : s.Inv told) (roomId : Option String) (isHost : Bool)
    (horderly : s.roomId = roomId ∧ s.isHost = true ∧ isHost = false →
      ∀ m ∈ s.manifest.getD [], s.items m ≠ none) :
    (s.followed roomId isHost).Inv told ∧ s.KeepsLocal (s.followed roomId isHost) := by
  unfold Bridge.followed
  split
  · refine ⟨inv_reset roomId isHost h.books.stays .nil (fun t ht => by cases ht)
      fun _ => ⟨rfl, rfl⟩, fun hstay => ?_⟩
    exact absurd hstay (Nat.succ_ne_self _)
  · rename_i hroom
    rw [not_not] at hroom
    refine ⟨⟨⟨h.books.marks, h.books.current, h.books.stays, h.books.oneCall, h.books.oneTimer,
      h.books.retries, h.books.timersRoom, h.books.status, h.books.empty⟩, h.fine,
        fun hviewer m hm => ?_⟩,
      fun _ m hm => hm⟩
    cases hhost : s.isHost with
    | false => exact h.listed hhost m hm
    | true => exact horderly ⟨hroom, hhost, hviewer⟩ m hm

/-! ### A call is made -/

/-- What a call for an item changes: nothing about the room, and no status that there is. -/
structure Onward (s s' : Bridge) : Prop where
  roomId : s'.roomId = s.roomId
  isHost : s'.isHost = s.isHost
  manifest : s'.manifest = s.manifest
  stay : s'.stay = s.stay
  items : ∀ m st, s.items m = some st → s'.items m = some st

namespace Onward

lemma refl (s : Bridge) : Onward s s := ⟨rfl, rfl, rfl, rfl, fun _ _ h => h⟩

lemma trans {s'' : Bridge} (h : Onward s s') (h' : Onward s' s'') : Onward s s'' where
  roomId := h'.roomId.trans h.roomId
  isHost := h'.isHost.trans h.isHost
  manifest := h'.manifest.trans h.manifest
  stay := h'.stay.trans h.stay
  items := fun m st hst => h'.items m st (h.items m st hst)

lemma status (h : Onward s s') (hm : s.items m ≠ none) : s'.items m ≠ none := by
  obtain ⟨st, hst⟩ := Option.ne_none_iff_exists'.1 hm
  rw [h.items m st hst]
  exact Option.some_ne_none st

lemma keepsLocal (h : Onward s s') : s.KeepsLocal s' := by
  intro _ m hm
  obtain ⟨st, hst, hlocal⟩ := (Option.any_eq_true _ _).1 hm
  exact (Option.any_eq_true _ _).2 ⟨st, h.items m st hst, hlocal⟩

end Onward

section Called

variable (s) (roomId mediaId) (attempt : ℕ)

lemma called_items (m : String) : (s.called roomId mediaId attempt).items m =
    if m = mediaId ∧ s.items m = none then some .checking else s.items m := by
  by_cases hnone : s.items mediaId = none
  · by_cases hm : m = mediaId
    · subst hm
      simp [called, hnone]
    · simp [called, hnone, hm]
  · have hno : ¬(m = mediaId ∧ s.items m = none) := fun ⟨hm, h⟩ => hnone (hm ▸ h)
    rw [if_neg hno]
    simp [called, hnone]

lemma asked_called (m : String) :
    (s.called roomId mediaId attempt).asked m ↔ s.asked m ∨ m = mediaId := by
  simp only [asked, called, List.mem_append, List.mem_singleton, or_and_right, exists_or,
    exists_eq_left, true_and, eq_comm]

lemma onward_called : Onward s (s.called roomId mediaId attempt) :=
  ⟨rfl, rfl, rfl, rfl, fun m st hst => by
    rw [called_items, if_neg (by simp [hst]), hst]⟩

end Called

/-- **A call is entered in the books.** -/
lemma Books.called (h : s.Books) (hroom : s.roomId = some roomId) (hmark : mediaId ∉ s.inflight)
    (attempt : ℕ) : (s.called roomId mediaId attempt).Books := by
  have hne : s.roomId ≠ none := by
    rw [hroom]
    exact Option.some_ne_none roomId
  refine ⟨fun _ m => ?_, fun c hc hstay => ?_, fun c hc => ?_, ?_, h.oneTimer, h.retries,
    h.timersRoom, fun m hm => ?_, fun hnone => absurd hnone hne⟩
  · rw [asked_called, Bridge.called, Finset.mem_insert, h.marks hne m, or_comm]
  · rcases List.mem_append.1 hc with hc | hc
    · exact h.current c hc hstay
    · rw [List.mem_singleton.1 hc]
      exact hroom
  · rcases List.mem_append.1 hc with hc | hc
    · exact h.stays c hc
    · rw [List.mem_singleton.1 hc]
      exact Nat.le_refl _
  · change (((s.calls ++ [(⟨roomId, mediaId, attempt, s.stay⟩ : Call)]).filter
      fun c => c.stay = s.stay).map (·.mediaId)).Nodup
    rw [List.filter_append, List.map_append]
    refine List.nodup_append.2 ⟨h.oneCall, by simp, fun x hx y hy hxy => ?_⟩
    obtain ⟨c, hc, rfl⟩ := List.mem_map.1 hx
    obtain ⟨hmem, hstay⟩ := List.mem_filter.1 hc
    simp only [decide_true, List.filter_cons_of_pos, List.filter_nil, List.map_cons, List.map_nil,
      List.mem_singleton] at hy
    rw [hy] at hxy
    exact hmark ((h.marks hne mediaId).2 ⟨c, hmem, of_decide_eq_true hstay, hxy⟩)
  · rw [called_items]
    split
    · exact Option.some_ne_none _
    · rename_i hold
      rcases (asked_called s roomId mediaId attempt m).1 hm with hm | rfl
      · exact h.status m hm
      · exact fun hnone => hold ⟨rfl, hnone⟩

/-- An item is in hand after a call as before, and the item of the call is. -/
lemma fine_called (attempt : ℕ) (hfine : m ≠ mediaId → s.Fine told m) :
    (s.called roomId mediaId attempt).Fine told m := by
  intro st hst
  by_cases hm : m = mediaId
  · exact .inr (.inl ((asked_called s roomId mediaId attempt m).2 (.inr hm)))
  · rw [called_items, if_neg fun h => hm h.1] at hst
    rcases hfine hm st hst with hexcused | hasked | harmed
    · exact .inl hexcused
    · exact .inr (.inl ((asked_called s roomId mediaId attempt m).2 (.inl hasked)))
    · exact .inr (.inr harmed)

/-- **`acquire` changes nothing, or makes the call.** -/
lemma acquire_cases (s : Bridge) (roomId mediaId : String) (attempt : ℕ) :
    (s.acquire roomId mediaId attempt = s ∧ (s.roomId = some roomId → mediaId ∉ s.inflight →
        attempt = 0 ∧ (s.items mediaId).any (!·.isError))) ∨
      (s.acquire roomId mediaId attempt = s.called roomId mediaId attempt ∧ s.roomId = some roomId ∧
        mediaId ∉ s.inflight) := by
  unfold acquire
  split
  · rename_i hroom
    exact .inl ⟨rfl, fun h => absurd h hroom⟩
  rename_i hroom
  split
  · rename_i hhas
    exact .inl ⟨rfl, fun _ _ => hhas⟩
  split
  · rename_i hmark
    exact .inl ⟨rfl, fun _ h => absurd hmark h⟩
  · rename_i hmark
    exact .inr ⟨rfl, not_not.1 hroom, hmark⟩

lemma onward_acquire (s : Bridge) (roomId mediaId : String) (attempt : ℕ) :
    Onward s (s.acquire roomId mediaId attempt) := by
  rcases acquire_cases s roomId mediaId attempt with ⟨heq, -⟩ | ⟨heq, -, -⟩
  · rw [heq]
    exact .refl s
  · rw [heq]
    exact onward_called s roomId mediaId attempt

lemma Books.acquire (h : s.Books) (roomId mediaId : String) (attempt : ℕ) :
    (s.acquire roomId mediaId attempt).Books := by
  rcases acquire_cases s roomId mediaId attempt with ⟨heq, -⟩ | ⟨heq, hroom, hmark⟩
  · rwa [heq]
  · rw [heq]
    exact h.called hroom hmark attempt

lemma fine_acquire (h : ∀ m, s.Fine told m) (roomId mediaId : String) (attempt : ℕ) (m : String) :
    (s.acquire roomId mediaId attempt).Fine told m := by
  rcases acquire_cases s roomId mediaId attempt with ⟨heq, -⟩ | ⟨heq, -, -⟩
  · rw [heq]
    exact h m
  · rw [heq]
    exact fine_called attempt fun _ => h m

/-- After `acquire`, the item has a status. -/
lemma status_acquire (h : s.Books) (hroom : s.roomId = some roomId) (mediaId : String)
    (attempt : ℕ) :
    (s.acquire roomId mediaId attempt).items mediaId ≠ none := by
  rcases acquire_cases s roomId mediaId attempt with ⟨heq, hwhy⟩ | ⟨heq, -, -⟩
  · rw [heq]
    by_cases hmark : mediaId ∈ s.inflight
    · have hne : s.roomId ≠ none := by
        rw [hroom]
        exact Option.some_ne_none roomId
      exact h.status mediaId ((h.marks hne mediaId).1 hmark)
    · obtain ⟨st, hst, -⟩ := (Option.any_eq_true _ _).1 (hwhy hroom hmark).2
      rw [hst]
      exact Option.some_ne_none st
  · rw [heq, called_items]
    split
    · exact Option.some_ne_none _
    · rename_i hold
      exact fun hnone => hold ⟨rfl, hnone⟩

/-! ### A manifest -/

/-- The loop over the manifest gives every item of it a status. -/
lemma foldl_acquire (ms : List String) (h : s.Books) (hfine : ∀ m, s.Fine told m)
    (hroom : s.roomId = some roomId) :
    (ms.foldl (fun s m => s.acquire roomId m 0) s).Books ∧
      (∀ m, (ms.foldl (fun s m => s.acquire roomId m 0) s).Fine told m) ∧
      Onward s (ms.foldl (fun s m => s.acquire roomId m 0) s) ∧
      ∀ m ∈ ms, (ms.foldl (fun s m => s.acquire roomId m 0) s).items m ≠ none := by
  induction ms generalizing s with
  | nil => exact ⟨h, hfine, .refl s, fun _ hm => by cases hm⟩
  | cons m ms ih =>
    have hon := onward_acquire s roomId m 0
    obtain ⟨hbooks, hfine', hrest, hall⟩ :=
      ih (h.acquire roomId m 0) (fine_acquire hfine roomId m 0) (hon.roomId.trans hroom)
    refine ⟨hbooks, hfine', hon.trans hrest, fun x hx => ?_⟩
    rcases List.mem_cons.1 hx with rfl | hx
    · exact hrest.status (status_acquire h hroom x 0)
    · exact hall x hx

/-- **A manifest is shown.** -/
lemma Inv.shown (h : s.Inv told) (hroom : s.roomId = some roomId)
    (manifest : Option (List String)) :
    (s.shown roomId manifest).Inv told ∧ s.KeepsLocal (s.shown roomId manifest) := by
  have hne : s.roomId ≠ none := by
    rw [hroom]
    exact Option.some_ne_none roomId
  have hbooks : ({ s with manifest } : Bridge).Books :=
    ⟨h.books.marks, h.books.current, h.books.stays, h.books.oneCall, h.books.oneTimer,
    h.books.retries, h.books.timersRoom, h.books.status,
    fun hnone => absurd hnone hne⟩
  unfold Bridge.shown
  dsimp only
  split
  · rename_i hhost
    exact ⟨⟨hbooks, h.fine, fun hviewer => absurd (hhost.symm.trans hviewer) (by decide)⟩,
      fun _ _ hm => hm⟩
  · obtain ⟨hbooks', hfine, hon, hall⟩ :=
      foldl_acquire (manifest.getD []) hbooks h.fine hroom
    refine ⟨⟨hbooks', hfine, fun _ m hm => hall m ?_⟩, hon.keepsLocal⟩
    rwa [hon.manifest] at hm

/-- **`refresh` goes on.** -/
lemma Inv.refreshed (h : s.Inv told) (roomId : String) (next : Option (String × Bool))
    (answer : Except String (Option (List String))) :
    (s.refreshed roomId next answer).Inv told ∧ s.KeepsLocal (s.refreshed roomId next answer) := by
  unfold Bridge.refreshed
  cases answer with
  | error message =>
    obtain ⟨tasks, heq⟩ := refreshOver_eq s next
    exact ⟨h.refreshOver next, heq ▸ fun _ _ hm => hm⟩
  | ok manifest =>
    dsimp only
    split
    · obtain ⟨tasks, heq⟩ := refreshOver_eq s next
      exact ⟨h.refreshOver next, heq ▸ fun _ _ hm => hm⟩
    · rename_i hroom
      obtain ⟨hshown, hkeeps⟩ := h.shown (not_not.1 hroom) manifest
      obtain ⟨tasks, heq⟩ := refreshOver_eq (s.shown roomId manifest) next
      exact ⟨hshown.refreshOver next, heq ▸ hkeeps⟩

/-! ### A timer fires -/

/-- **A timer fires**: its item has a call then. -/
lemma Inv.fire (h : s.Inv told) {k : ℕ} {t : RetryTimer} (ht : s.timers[k]? = some t) :
    ({ s with timers := s.timers.eraseIdx k }.acquire t.roomId t.mediaId t.attempt).Inv told ∧
      s.KeepsLocal
        ({ s with timers := s.timers.eraseIdx k }.acquire t.roomId t.mediaId t.attempt) := by
  have hperm := perm_eraseIdx ht
  have hsub : (s.timers.eraseIdx k).Sublist s.timers := List.eraseIdx_sublist s.timers k
  have hbooks : ({ s with timers := s.timers.eraseIdx k } : Bridge).Books := ⟨h.books.marks,
    h.books.current, h.books.stays, h.books.oneCall, (hsub.map _).nodup h.books.oneTimer,
    fun t ht => h.books.retries t (hsub.subset ht),
    fun r hr t ht => h.books.timersRoom r hr t (hsub.subset ht), h.books.status, h.books.empty⟩
  -- every other item is as much in hand as before
  have hother (m : String) (hm : m ≠ t.mediaId) :
      ({ s with timers := s.timers.eraseIdx k } : Bridge).Fine told m := by
    intro st hst
    rcases h.fine m st hst with hexcused | hasked | ⟨t', ht', hm'⟩
    · exact .inl hexcused
    · exact .inr (.inl hasked)
    · refine .inr (.inr ⟨t', ?_, hm'⟩)
      rcases List.mem_cons.1 (hperm.mem_iff.1 ht') with rfl | hrest
      · exact absurd hm'.symm hm
      · exact hrest
  have hon := onward_acquire { s with timers := s.timers.eraseIdx k } t.roomId t.mediaId t.attempt
  refine ⟨⟨hbooks.acquire _ _ _, fun m => ?_, fun hviewer m hm => ?_⟩, fun hstay m hm =>
    hon.keepsLocal hstay m hm⟩
  · rcases acquire_cases { s with timers := s.timers.eraseIdx k } t.roomId t.mediaId t.attempt with
      ⟨heq, hwhy⟩ | ⟨heq, -, -⟩
    · rw [heq]
      by_cases hm : m = t.mediaId
      · subst hm
        intro st hst
        cases hroom : s.roomId with
        | none =>
          have hnone := (h.books.empty hroom).2 t.mediaId
          exact absurd (hnone.symm.trans hst) (by simp)
        | some roomId =>
          have hmem : t ∈ s.timers := hperm.mem_iff.2 List.mem_cons_self
          have hsame : s.roomId = some t.roomId := by
            rw [hroom, h.books.timersRoom roomId hroom t hmem]
          by_cases hmark : t.mediaId ∈ s.inflight
          · exact .inr
              (.inl ((h.books.marks (by rw [hroom]; exact Option.some_ne_none roomId) _).1 hmark))
          · exact absurd (hwhy hsame hmark).1 (h.books.retries t hmem)
      · exact hother m hm
    · rw [heq]
      exact fine_called t.attempt (hother m)
  · rw [hon.manifest] at hm
    rw [hon.isHost] at hviewer
    exact hon.status (h.listed hviewer m hm)

/-! ### An answer -/

section Answer

variable {k : ℕ} {c : Call} {answer : Except String DownloadSession}

/-- What an answer makes of its item. -/
lemma statusOf_cases (told : String → Option DownloadState)
    (answer : Except String DownloadSession) :
    Excused told (statusOf answer) ∨ (statusOf answer).isWaiting ∨
      ∃ d l, statusOf answer = .downloading d l ∧ (told d).any (·.isOver) := by
  cases answer with
  | error message => exact .inl trivial
  | ok r =>
    unfold statusOf
    dsimp only
    split
    · exact .inl trivial
    split
    · by_cases hover : (told r.downloadId).any (·.isOver)
      · exact .inr (.inr ⟨_, _, rfl, hover⟩)
      · exact .inl hover
    · exact .inr (.inl rfl)

/-- The calls of this stay without one of them. -/
lemma asked_eraseIdx (h : s.Books) (hc : s.calls[k]? = some c) (hstay : c.stay = s.stay)
    (m : String) :
    ({ s with calls := s.calls.eraseIdx k } : Bridge).asked m ↔ m ≠ c.mediaId ∧ s.asked m := by
  have hperm := perm_eraseIdx hc
  have hone := ((hperm.filter fun c => c.stay = s.stay).map (·.mediaId)).nodup_iff.1 h.oneCall
  rw [List.filter_cons_of_pos (by simpa using hstay), List.map_cons, List.nodup_cons] at hone
  constructor
  · rintro ⟨c', hc', hstay', rfl⟩
    refine ⟨fun heq => hone.1 ?_, c', hperm.mem_iff.2 (List.mem_cons_of_mem c hc'), hstay', rfl⟩
    exact List.mem_map.2 ⟨c', List.mem_filter.2 ⟨hc', decide_eq_true hstay'⟩, heq⟩
  · rintro ⟨hne, c', hc', hstay', rfl⟩
    refine ⟨c', ?_, hstay', rfl⟩
    rcases List.mem_cons.1 (hperm.mem_iff.1 hc') with rfl | hrest
    · exact absurd rfl hne
    · exact hrest

/-- The calls of this stay without one of an earlier one. -/
lemma asked_eraseIdx_of_ne (hc : s.calls[k]? = some c) (hstay : c.stay ≠ s.stay) (m : String) :
    ({ s with calls := s.calls.eraseIdx k } : Bridge).asked m ↔ s.asked m := by
  have hperm := perm_eraseIdx hc
  constructor
  · rintro ⟨c', hc', hstay', rfl⟩
    exact ⟨c', hperm.mem_iff.2 (List.mem_cons_of_mem c hc'), hstay', rfl⟩
  · rintro ⟨c', hc', hstay', rfl⟩
    refine ⟨c', ?_, hstay', rfl⟩
    rcases List.mem_cons.1 (hperm.mem_iff.1 hc') with rfl | hrest
    · exact absurd hstay' hstay
    · exact hrest

/-- The timers after an answer. -/
def timersAfter (s : Bridge) (c : Call) (status : SharedItemStatus) : List RetryTimer :=
  if status.isWaiting then s.timers ++ [⟨c.roomId, c.mediaId, c.attempt + 1⟩] else s.timers

lemma mem_timersAfter {status : SharedItemStatus} {t : RetryTimer}
    (ht : t ∈ s.timersAfter c status) :
    t ∈ s.timers ∨ status.isWaiting ∧ t = ⟨c.roomId, c.mediaId, c.attempt + 1⟩ := by
  unfold timersAfter at ht
  split at ht
  · rename_i hwaiting
    rcases List.mem_append.1 ht with ht | ht
    · exact .inl ht
    · exact .inr ⟨hwaiting, List.mem_singleton.1 ht⟩
  · exact .inl ht

lemma subset_timersAfter {status : SharedItemStatus} {t : RetryTimer} (ht : t ∈ s.timers) :
    t ∈ s.timersAfter c status := by
  unfold timersAfter
  split
  · exact List.mem_append_left _ ht
  · exact ht

lemma nodup_timersAfter (h : s.Books) {status : SharedItemStatus}
    (hwaiting : status.isWaiting → ¬s.armed c.mediaId) :
    ((s.timersAfter c status).map (·.mediaId)).Nodup := by
  unfold timersAfter
  split
  · rename_i hw
    rw [List.map_append]
    refine List.nodup_append.2 ⟨h.oneTimer, by simp, fun x hx y hy hxy => ?_⟩
    obtain ⟨t, ht, rfl⟩ := List.mem_map.1 hx
    exact hwaiting hw ⟨t, ht, hxy.trans (List.mem_singleton.1 hy)⟩
  · exact h.oneTimer

/-- The state after an answer for the room that is held. -/
lemma answered_eq (hroom : s.roomId = some c.roomId) : s.answered c answer =
    { s with
      items := Function.update s.items c.mediaId (some (statusOf answer))
      timers := s.timersAfter c (statusOf answer) } := by
  unfold answered timersAfter
  rw [if_neg (not_not.2 hroom)]
  dsimp only
  split <;> rfl

/-- **A timely answer.** -/
lemma Inv.answeredNow (h : s.Inv told) (hc : s.calls[k]? = some c) (hstay : c.stay = s.stay)
    (hlocal : BridgeRun.localIn s c.mediaId → (statusOf answer).isLocal)
    (hwaiting : (statusOf answer).isWaiting → ¬s.armed c.mediaId)
    (hover : ∀ d l, statusOf answer = .downloading d l → (told d).any (·.isOver) →
      s.armed c.mediaId) :
    (({ s with calls := s.calls.eraseIdx k }.answered c answer).released c.mediaId).Inv told ∧
      s.KeepsLocal
        (({ s with calls := s.calls.eraseIdx k }.answered c answer).released c.mediaId) := by
  have hmem : c ∈ s.calls := (perm_eraseIdx hc).mem_iff.2 List.mem_cons_self
  have hroom := h.books.current c hmem hstay
  have hne : s.roomId ≠ none := by
    rw [hroom]
    exact Option.some_ne_none c.roomId
  have hasked := asked_eraseIdx h.books hc hstay
  have hsub : (s.calls.eraseIdx k).Sublist s.calls := List.eraseIdx_sublist s.calls k
  rw [answered_eq (s := { s with calls := s.calls.eraseIdx k }) hroom]
  refine ⟨⟨⟨fun _ m => ?_, fun c' hc' => h.books.current c' (hsub.subset hc'),
    fun c' hc' => h.books.stays c' (hsub.subset hc'),
    ((hsub.filter _).map _).nodup h.books.oneCall, nodup_timersAfter h.books hwaiting,
      fun t ht => ?_,
    fun r hr t ht => ?_, fun m hm => ?_, fun hnone => absurd hnone hne⟩, fun m st hst => ?_,
    fun hviewer m hm => ?_⟩, fun _ m hm => ?_⟩
  · exact Finset.mem_erase.trans
      ((and_congr_right fun _ => h.books.marks hne m).trans (hasked m).symm)
  · rcases mem_timersAfter ht with ht | ⟨-, rfl⟩
    · exact h.books.retries t ht
    · exact Nat.succ_ne_zero _
  · rcases mem_timersAfter ht with ht | ⟨-, rfl⟩
    · exact h.books.timersRoom r hr t ht
    · exact Option.some.inj (hroom.symm.trans hr)
  · obtain ⟨hm', hold⟩ := (hasked m).1 hm
    change Function.update s.items c.mediaId (some (statusOf answer)) m ≠ none
    rw [Function.update_of_ne hm']
    exact h.books.status m hold
  · change Function.update s.items c.mediaId (some (statusOf answer)) m = some st at hst
    by_cases hm : m = c.mediaId
    · subst hm
      rw [Function.update_self, Option.some.injEq] at hst
      subst hst
      rcases statusOf_cases told answer with hexcused | hwait | ⟨d, l, hst, hend⟩
      · exact .inl hexcused
      · refine .inr (.inr ⟨⟨c.roomId, c.mediaId, c.attempt + 1⟩, ?_, rfl⟩)
        change _ ∈ s.timersAfter c (statusOf answer)
        rw [timersAfter, if_pos hwait]
        exact List.mem_append_right _ (List.mem_singleton_self _)
      · obtain ⟨t, ht, htm⟩ := hover d l hst hend
        exact .inr (.inr ⟨t, subset_timersAfter ht, htm⟩)
    · rw [Function.update_of_ne hm] at hst
      rcases h.fine m st hst with hexcused | hold | ⟨t, ht, htm⟩
      · exact .inl hexcused
      · exact .inr (.inl ((hasked m).2 ⟨hm, hold⟩))
      · exact .inr (.inr ⟨t, subset_timersAfter ht, htm⟩)
  · change Function.update s.items c.mediaId (some (statusOf answer)) m ≠ none
    by_cases hm' : m = c.mediaId
    · rw [hm', Function.update_self]
      exact Option.some_ne_none _
    · rw [Function.update_of_ne hm']
      exact h.listed hviewer m hm
  · change (Function.update s.items c.mediaId (some (statusOf answer)) m).any (·.isLocal) = true
    by_cases hm' : m = c.mediaId
    · subst hm'
      rw [Function.update_self, Option.any_some]
      exact hlocal hm
    · rw [Function.update_of_ne hm']
      exact hm

/-- The state without a call of an earlier stay, and with other timers. -/
lemma Inv.withoutCall (h : s.Inv told) (hc : s.calls[k]? = some c) (hstay : c.stay ≠ s.stay)
    (timers : List RetryTimer) (inflight : Finset String) (hsubset : s.timers ⊆ timers)
    (hone : (timers.map (·.mediaId)).Nodup) (hretries : ∀ t ∈ timers, t.attempt ≠ 0)
    (hroom : ∀ roomId, s.roomId = some roomId → ∀ t ∈ timers, t.roomId = roomId)
    (hmarks : s.roomId ≠ none → inflight = s.inflight) :
    ({ s with calls := s.calls.eraseIdx k, timers, inflight } : Bridge).Inv told := by
  have hasked := asked_eraseIdx_of_ne hc hstay
  have hsub : (s.calls.eraseIdx k).Sublist s.calls := List.eraseIdx_sublist s.calls k
  refine ⟨⟨fun hne m => ?_, fun c' hc' => h.books.current c' (hsub.subset hc'),
    fun c' hc' => h.books.stays c' (hsub.subset hc'),
    ((hsub.filter _).map _).nodup h.books.oneCall, hone, hretries, hroom,
    fun m hm => h.books.status m ((hasked m).1 hm), h.books.empty⟩, fun m st hst => ?_, h.listed⟩
  · change m ∈ inflight ↔ _
    rw [hmarks hne, h.books.marks hne m]
    exact (hasked m).symm
  · rcases h.fine m st hst with hexcused | hold | ⟨t, ht, htm⟩
    · exact .inl hexcused
    · exact .inr (.inl ((hasked m).2 hold))
    · exact .inr (.inr ⟨t, hsubset ht, htm⟩)

/-- **A late answer that is harmless** changes neither an item nor a mark of the room. -/
lemma Inv.answeredLate (h : s.Inv told) (hc : s.calls[k]? = some c) (hstay : c.stay ≠ s.stay)
    (hmark : s.roomId ≠ none → c.mediaId ∉ s.inflight)
    (hsame : s.roomId = some c.roomId →
      s.items c.mediaId = some (statusOf answer) ∧
        ((statusOf answer).isWaiting → ¬s.armed c.mediaId)) :
    (({ s with calls := s.calls.eraseIdx k }.answered c answer).released c.mediaId).Inv told ∧
      (({ s with calls := s.calls.eraseIdx k }.answered c answer).released c.mediaId).items =
        s.items ∧
      (s.roomId ≠ none →
        (({ s with calls := s.calls.eraseIdx k }.answered c answer).released c.mediaId).inflight =
          s.inflight) := by
  have hkept (hne : s.roomId ≠ none) : s.inflight.erase c.mediaId = s.inflight :=
    Finset.erase_eq_of_notMem (hmark hne)
  by_cases hroom : s.roomId = some c.roomId
  · obtain ⟨hitem, hwaiting⟩ := hsame hroom
    rw [answered_eq (s := { s with calls := s.calls.eraseIdx k }) hroom]
    have hitems : Function.update s.items c.mediaId (some (statusOf answer)) = s.items := by
      rw [← hitem, Function.update_eq_self]
    have hinv := h.withoutCall hc hstay (s.timersAfter c (statusOf answer))
      (s.inflight.erase c.mediaId)
      (fun t ht => subset_timersAfter ht) (nodup_timersAfter h.books hwaiting)
      (fun t ht => by
        rcases mem_timersAfter ht with ht | ⟨-, rfl⟩
        · exact h.books.retries t ht
        · exact Nat.succ_ne_zero _)
      (fun r hr t ht => by
        rcases mem_timersAfter ht with ht | ⟨-, rfl⟩
        · exact h.books.timersRoom r hr t ht
        · exact Option.some.inj (hroom.symm.trans hr)) hkept
    refine ⟨?_, hitems, hkept⟩
    simp only [released, hitems]
    exact hinv
  · rw [answered, if_pos hroom]
    exact ⟨h.withoutCall hc hstay s.timers (s.inflight.erase c.mediaId) (fun _ ht => ht)
      h.books.oneTimer h.books.retries h.books.timersRoom hkept, rfl, hkept⟩

end Answer

/-! ### The download store -/

/-- An item that is still downloading was so before, and its transfer is not over. -/
lemma folded_eq_downloading {states : String → Option DownloadStateEvent} {item : SharedItemStatus}
    {d l : String} (h : folded states item = .downloading d l) :
    item = .downloading d l ∧ ∀ ev, states d = some ev → ev.state.isOver = false := by
  cases item with
  | checking | ready | error => cases h
  | waiting d' l' =>
    simp only [folded] at h
    split at h
    · cases h
    · unfold foldedBy at h
      split at h
      · cases h
      split at h <;> cases h
  | downloading d' l' =>
    simp only [folded] at h
    split at h
    · rename_i hnone
      cases h
      exact ⟨rfl, fun ev hev => absurd (hnone.symm.trans hev) (by simp)⟩
    · rename_i ev hev
      unfold foldedBy at h
      split at h
      · cases h
      split at h
      · cases h
      · rename_i hcomplete hfailed
        cases h
        refine ⟨rfl, fun ev' hev' => ?_⟩
        obtain rfl := Option.some.inj (hev.symm.trans hev')
        cases hstate : ev.state <;> simp_all [DownloadState.isOver]

/-- A local item is not folded, and a folded item that has not come to its end was as it is. -/
lemma folded_cases (states : String → Option DownloadStateEvent) (item : SharedItemStatus) :
    folded states item = item ∨ (item.isLocal = false ∧
      ((folded states item).isLocal ∨ (folded states item).isError)) := by
  cases item with
  | checking | ready | error => exact .inl rfl
  | waiting d l | downloading d l =>
    simp only [folded]
    split
    · exact .inl rfl
    · unfold foldedBy
      split
      · exact .inr ⟨rfl, .inl rfl⟩
      split
      · exact .inr ⟨rfl, .inr rfl⟩
      · exact .inl rfl

/-- **A change of the download store** is folded into the items. -/
lemma Inv.onDownloads (h : s.Inv told) (states : String → Option DownloadStateEvent)
    (told' : String → Option DownloadState)
    (htold : ∀ d, (told' d).any (·.isOver) → (told d).any (·.isOver) ∨
      ∃ ev, states d = some ev ∧ ev.state.isOver) :
    (s.onDownloads states).Inv told' ∧ s.KeepsLocal (s.onDownloads states) := by
  have hitems (m : String) (hm : s.items m ≠ none) : (s.onDownloads states).items m ≠ none := by
    obtain ⟨st, hst⟩ := Option.ne_none_iff_exists'.1 hm
    simp [Bridge.onDownloads, hst]
  refine ⟨⟨⟨h.books.marks, h.books.current, h.books.stays, h.books.oneCall, h.books.oneTimer,
    h.books.retries, h.books.timersRoom, fun m hm => hitems m (h.books.status m hm),
      fun hroom => ?_⟩,
    fun m st hst => ?_, fun hviewer m hm => hitems m (h.listed hviewer m hm)⟩, fun _ m hm => ?_⟩
  · obtain ⟨hmanifest, hnone⟩ := h.books.empty hroom
    exact ⟨hmanifest, fun m => by simp [Bridge.onDownloads, hnone m]⟩
  · obtain ⟨item, hitem, rfl⟩ := Option.map_eq_some_iff.1 hst
    by_cases hexcused : Excused told' (folded states item)
    · exact .inl hexcused
    refine .inr ?_
    rcases h.fine m item hitem with hold | hhand
    · -- only a download could have lost its excuse
      exfalso
      rcases folded_cases states item with heq | ⟨-, hend⟩
      · rw [heq] at hexcused
        cases item with
        | checking | waiting => exact hold
        | ready | error => exact hexcused trivial
        | downloading d l =>
          obtain ⟨-, hstates⟩ := folded_eq_downloading heq
          rcases htold d (not_not.1 hexcused) with hend | ⟨ev, hev, hend⟩
          · exact hold hend
          · rw [hstates ev hev] at hend
            cases hend
      · cases hfolded : folded states item <;> rw [hfolded] at hexcused hend
        · exact hend.elim nofun nofun
        · exact hend.elim nofun nofun
        · exact hend.elim nofun nofun
        · exact hexcused trivial
        · exact hexcused trivial
    · exact hhand
  · obtain ⟨item, hitem, hlocal⟩ := (Option.any_eq_true _ _).1 hm
    refine (Option.any_eq_true _ _).2 ⟨folded states item, by simp [Bridge.onDownloads, hitem], ?_⟩
    rcases folded_cases states item with heq | ⟨hno, -⟩
    · rwa [heq]
    · rw [hlocal] at hno
      cases hno

/-- **A deliberate leave.** -/
lemma Inv.leave (h : s.Inv told) : s.leave.Inv told := by
  have hreset : (s.reset none false).Inv told :=
    inv_reset none false h.books.stays h.books.oneTimer h.books.retries fun hne => absurd rfl hne
  exact (hreset.onDownloads (fun _ => none) told fun _ hd => .inl hd).1

end Bridge

/-! ### Runs -/

namespace BridgeRun

variable {r r' : BridgeRun} {i : BridgeInput}

/-- **The invariant of a run.** -/
structure Inv (r : BridgeRun) : Prop where
  bridge : r.bridge.Inv r.told
  local_kept : ∀ m, r.reachedLocal m → localIn r.bridge m
  undisturbed : r.disturbed = false

lemma inv_start : start.Inv := ⟨Bridge.inv_start, fun _ h => (by cases h), rfl⟩

/-- **One orderly step of the bridge.** -/
lemma Inv.bridgeStep (h : r.Inv) (horderly : orderly r i) {s : Bridge}
    (hs : r.bridge.step i = some s) :
    s.Inv (r.toldAfter i) ∧ r.bridge.KeepsLocal s ∧ disturbs r.bridge s i = false := by
  have hb := h.bridge
  cases i with
  | summary summary =>
    cases hs
    obtain ⟨hfollowed, hkeeps⟩ :=
      hb.followed (summary.map RoomSummary.id) (isHostOf summary) horderly
    cases summary with
    | none => exact ⟨hfollowed, hkeeps, rfl⟩
    | some summary =>
      obtain ⟨tasks, heq⟩ := Bridge.refresh_eq
        (r.bridge.followed (some summary.id) (isHostOf (some summary)))
        (some (summary.id, isHostOf (some summary)))
      have hsummary : r.bridge.onSummary (some summary) =
          { r.bridge.followed (some summary.id) (isHostOf (some summary)) with tasks } := heq
      rw [hsummary]
      exact ⟨hfollowed.tasks _ tasks, hkeeps, rfl⟩
  | leave =>
    cases hs
    exact ⟨hb.leave, fun hstay => absurd hstay (Nat.succ_ne_self _), rfl⟩
  | manifestState =>
    cases hs
    obtain ⟨tasks, heq⟩ := Bridge.refresh_eq r.bridge none
    exact ⟨hb.refresh none, heq ▸ fun _ _ hm => hm, rfl⟩
  | manifest k answer =>
    simp only [Bridge.step] at hs
    split at hs
    · cases hs
      obtain ⟨hinv, hkeeps⟩ :=
        (hb.tasks r.bridge.fetchedFor (r.bridge.tasks.eraseIdx k)).refreshed _ _ answer
      exact ⟨hinv, hkeeps, rfl⟩
    · cases hs
  | resume k =>
    simp only [Bridge.step] at hs
    split at hs
    · rename_i roomId isHost _
      cases hs
      obtain ⟨fetchedFor, tasks, heq⟩ :=
        Bridge.resumed_eq { r.bridge with tasks := r.bridge.tasks.eraseIdx k } roomId isHost
      rw [heq]
      exact ⟨hb.tasks fetchedFor tasks, fun _ _ hm => hm, rfl⟩
    · cases hs
  | fetched k =>
    simp only [Bridge.step] at hs
    split at hs
    · cases hs
      obtain ⟨tasks, heq⟩ :=
        Bridge.refresh_eq { r.bridge with tasks := r.bridge.tasks.eraseIdx k } none
      rw [heq]
      exact ⟨hb.tasks r.bridge.fetchedFor tasks, fun _ _ hm => hm, rfl⟩
    · cases hs
  | answer k answer =>
    obtain ⟨c, hc, rfl⟩ := Option.map_eq_some_iff.1 hs
    have horderly := horderly c hc
    by_cases hstay : c.stay = r.bridge.stay
    · rw [if_pos hstay] at horderly
      obtain ⟨hlocal, hwaiting, hover⟩ := horderly
      obtain ⟨hinv, hkeeps⟩ := hb.answeredNow hc hstay hlocal hwaiting fun d l hst hend => by
        rw [hst] at hover
        exact hover.resolve_left (not_not.2 hend)
      refine ⟨hinv, hkeeps, ?_⟩
      simp [disturbs, hc, hstay]
    · rw [if_neg hstay] at horderly
      obtain ⟨hinv, hitems, hmarks⟩ := hb.answeredLate hc hstay (fun hne => (horderly hne).1)
        fun hroom => (horderly (by rw [hroom]; exact Option.some_ne_none _)).2 hroom
      refine ⟨hinv, fun _ m hm => ?_, ?_⟩
      · rw [localIn, hitems]
        exact hm
      · by_cases hroom : r.bridge.roomId = none
        · simp [disturbs, hc, hroom]
        · simp [disturbs, hc, hitems, hmarks hroom]
  | fire k =>
    obtain ⟨t, ht, rfl⟩ := Option.map_eq_some_iff.1 hs
    obtain ⟨hinv, hkeeps⟩ := hb.fire ht
    exact ⟨hinv, hkeeps, rfl⟩
  | downloadState ev =>
    cases hs
    obtain ⟨hinv, hkeeps⟩ := hb.onDownloads (Function.update r.bridge.states ev.id (some ev))
      (r.toldAfter (.downloadState ev)) fun d hd => by
        by_cases hev : d = ev.id
        · subst hev
          refine .inr ⟨ev, Function.update_self .., ?_⟩
          simpa [toldAfter] using hd
        · refine .inl ?_
          simpa [toldAfter, Function.update_of_ne hev] using hd
    exact ⟨hinv, hkeeps, rfl⟩
  | downloadProgress =>
    cases hs
    obtain ⟨hinv, hkeeps⟩ := hb.onDownloads r.bridge.states r.told fun _ hd => .inl hd
    exact ⟨hinv, hkeeps, rfl⟩
  | dismiss id =>
    cases hs
    obtain ⟨hinv, hkeeps⟩ :=
      hb.onDownloads (Function.update r.bridge.states id none) r.told fun _ hd => .inl hd
    exact ⟨hinv, hkeeps, rfl⟩

/-- **One orderly step of the run.** -/
lemma Inv.step (h : r.Inv) (horderly : orderly r i) (hs : bridgeMachine r i = some r') :
    r'.Inv := by
  obtain ⟨s, hbridge, rfl⟩ := Option.map_eq_some_iff.1 hs
  obtain ⟨hinv, hkeeps, hdisturbs⟩ := h.bridgeStep horderly hbridge
  refine ⟨hinv, fun m hm => ?_, ?_⟩
  · rcases Bool.or_eq_true_iff.1 hm with hold | hnow
    · obtain ⟨hstay, hreached⟩ := Bool.and_eq_true_iff.1 hold
      exact hkeeps (of_decide_eq_true hstay) m (h.local_kept m hreached)
    · exact hnow
  · rw [h.undisturbed, hdisturbs]
    rfl

lemma Inv.faithful (h : r.Inv) : r.Faithful where
  oneCall m := by
    have hone := length_filter_le_one Call.mediaId h.bridge.books.oneCall m
    rw [List.filter_filter] at hone
    refine le_of_eq_of_le (congrArg List.length (List.filter_congr fun c _ => ?_)) hone
    rw [Bool.decide_and, Bool.and_comm]
  oneTimer m := length_filter_le_one RetryTimer.mediaId h.bridge.books.oneTimer m
  undisturbed := h.undisturbed
  local_kept := h.local_kept
  inHand hviewer m hm := by
    obtain ⟨st, hst⟩ := Option.ne_none_iff_exists'.1 (h.bridge.listed hviewer m hm)
    rcases h.bridge.fine m st hst with hexcused | hhand
    · refine .inl ⟨st, hst, ?_⟩
      cases st with
      | checking | waiting => cases hexcused
      | downloading d l => exact .inr (.inr ⟨d, l, rfl, hexcused⟩)
      | ready => exact .inl rfl
      | error => exact .inr (.inl rfl)
    · exact .inr hhand

end BridgeRun

def viewer (roomId : String) : Option RoomSummary := some ⟨roomId, some "viewer", "host"⟩

/-- A client enters a room whose manifest has one item. -/
def entered (roomId : String) : List BridgeInput :=
  [.summary (viewer roomId), .manifest 0 (.ok (some ["film"]))]

/-- The client goes on to another room that shares the same item, and is answered for the first
one. -/
def late : List BridgeInput :=
  entered "first" ++ [.summary (viewer "second"), .manifest 1 (.ok (some ["film"])),
    .answer 0 (.error "not in a room")]

end Locast.Client.SharedMedia
