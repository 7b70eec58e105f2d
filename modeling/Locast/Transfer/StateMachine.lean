import Locast.Transfer.StoreSpec
import Mathlib.Data.List.Chain

/-!
# The state machine of a download

`transition` and `mark_failed` read the state, check it, and write in a statement of its own that
asks nothing.  So what they store follows `is_valid_transition` as long as nothing changes the
stored state between the check and the write; `mark_complete` climbs its ladder inside one
transaction, whose statements each ask for the state they leave.
-/

namespace Locast.Transfer

open Locast.Lib
open Locast.Lib.System (Did.record Handled)

/-! ### Rows after a statement -/

namespace Db

variable {db : Db} {id id' : String} {f : Download → Download}

lemma stateOf_update_keeps (hf : ∀ d, (f d).state = d.state) :
    (db.update id f).stateOf id' = db.stateOf id' := by
  rw [stateOf, get_update, stateOf]
  split
  · rename_i heq
    rw [heq, Option.map_map]
    exact congrArg (Option.map · (db.get id)) (funext hf)
  · rfl

end Db

namespace Download

variable {d : Download} {index : ℕ} {chunk : ℕ × String}

@[simp] lemma updateChunk_state (f : ChunkRow → ChunkRow) :
    (d.updateChunk index f).state = d.state := by
  unfold updateChunk
  split <;> rfl

@[simp] lemma insertChunk_state (row : ChunkRow) : (d.insertChunk index row).state = d.state := by
  unfold insertChunk
  split <;> rfl

@[simp] lemma upsertVerified_state (totalBytes : ℕ) :
    (d.upsertVerified totalBytes chunk).state = d.state := by
  unfold upsertVerified
  dsimp only
  split <;> rfl

@[simp] lemma reconcileChunk_state : (d.reconcileChunk chunk).state = d.state := by
  unfold reconcileChunk
  split
  · split <;> rfl
  · simp

end Download

/-! ### Changes that are allowed -/

@[simp] lemma isValidTransition_self (s : DownloadState) : isValidTransition s s = true := by
  simp [isValidTransition]

/-- The states that end a download. -/
def DownloadState.terminal : DownloadState → Bool
  | complete | failed | cancelled => true
  | _ => false

lemma eq_of_terminal {current target : DownloadState} (ht : current.terminal = true)
    (hv : isValidTransition current target = true) : target = current := by
  revert ht hv
  cases current <;> cases target <;> decide

/-- **What may happen to the stored states**: every download keeps its row, and its state changes as
`is_valid_transition` allows. -/
def Follows (before after : Db) : Prop :=
  ∀ id current, before.stateOf id = some current →
    ∃ next, after.stateOf id = some next ∧ isValidTransition current next = true

lemma follows_of_keeps {before after : Db} (h : ∀ id, after.stateOf id = before.stateOf id) :
    Follows before after :=
  fun id current hc => ⟨current, (h id).trans hc, isValidTransition_self current⟩

lemma follows_update {db : Db} {id : String} {f : Download → Download}
    (hf : ∀ d, db.get id = some d → isValidTransition d.state (f d).state = true) :
    Follows db (db.update id f) := by
  intro id' current hc
  obtain ⟨d, hd, rfl⟩ := Option.map_eq_some_iff.1 hc
  rw [Db.stateOf, Db.get_update]
  split
  · rename_i heq
    rw [heq] at hd
    rw [hd]
    exact ⟨_, rfl, hf d hd⟩
  · rw [hd]
    exact ⟨_, rfl, isValidTransition_self _⟩

lemma raise_valid {current target : DownloadState} (h : isValidTransition current target = true)
    (d : Download) : isValidTransition d.state (d.raise current target).state = true := by
  unfold Download.raise
  split
  · rename_i hs
    rw [hs]
    exact h
  · exact isValidTransition_self _

lemma finish_valid (now : ℤ) (totalBytes : ℕ) (sourcePeerId : Option String) (d : Download) :
    isValidTransition d.state (d.finish now totalBytes sourcePeerId).state = true := by
  unfold Download.finish
  split
  · rename_i hs
    rw [hs]
    rfl
  · exact isValidTransition_self _

lemma follows_insertDownload (now : ℤ) (new : NewDownload) (db : Db) :
    Follows db (Effect.insertDownload now new db) := by
  unfold Effect.insertDownload
  split
  · exact follows_of_keeps fun _ => rfl
  · rename_i hnew
    intro id current hc
    rw [Db.stateOf, AList.get_insert]
    split
    · rename_i heq
      obtain ⟨d, hd, -⟩ := Option.map_eq_some_iff.1 hc
      simp [← heq, hd] at hnew
    · exact ⟨current, hc, isValidTransition_self _⟩

/-! ### One step -/

namespace Effect

/-- The state that a statement of `transition` or `mark_failed` stores, whatever it finds. -/
def target : Effect → Option (String × DownloadState)
  | setState id target => some (id, target)
  | setFailed id _ => some (id, .failed)
  | _ => none

/-- The effect may write the state of a download. -/
def writesState : Effect → Bool
  | setState .. | setFailed .. | createTx .. | completeTx .. => true
  | _ => false

/-- The other effects leave the state of their download. -/
lemma state_of_mem_edits {e : Effect} (he : e.writesState = false) {now : ℤ}
    {f : Download → Download} (hf : f ∈ e.edits now) (d : Download) : (f d).state = d.state := by
  cases e with
  | setState | setFailed | createTx | completeTx => cases he
  | selectState | selectVersion | countChunks | selectChunk => cases hf
  | setVersion | setLastError | setSourcePeer | resetInFlight | refresh =>
    obtain rfl := List.mem_singleton.1 hf
    rfl
  | setVerified | setReceived =>
    rw [List.mem_singleton.1 hf]
    exact Download.updateChunk_state _
  | reconcileTx id version hashes =>
    simp only [edits, List.cons_append, List.mem_cons, List.mem_append, List.mem_map,
      List.not_mem_nil, or_false] at hf
    rcases hf with rfl | ⟨chunk, -, rfl⟩ | rfl
    · rfl
    · exact Download.reconcileChunk_state
    · rfl

lemma keeps_of_mem {e : Effect} (he : e.writesState = false) {now : ℤ} {db : Db} {f : Db → Db}
    (hf : f ∈ e.statements now db) (db' : Db) (id : String) :
    (f db').stateOf id = db'.stateOf id := by
  have hmem : f ∈ (e.edits now).map (Db.update e.subject) := by
    cases e with
    | createTx => cases he
    | _ => exact hf
  obtain ⟨g, hg, rfl⟩ := List.mem_map.1 hmem
  exact Db.stateOf_update_keeps (state_of_mem_edits he hg)

/-- Every statement but the two of `target` only makes changes that are allowed. -/
lemma follows_of_mem {e : Effect} (he : e.target = none) {now : ℤ} {db : Db} {f : Db → Db}
    (hf : f ∈ e.statements now db) (db' : Db) : Follows db' (f db') := by
  by_cases hw : e.writesState = false
  · exact follows_of_keeps (keeps_of_mem hw hf db')
  cases e with
  | setState | setFailed => cases he
  | createTx new chunks =>
    simp only [statements] at hf
    split at hf
    · rcases List.mem_cons.1 hf with rfl | hf
      · exact follows_insertDownload now new db'
      · obtain ⟨g, hg, rfl⟩ := List.mem_map.1 hf
        obtain ⟨chunk, -, rfl⟩ := List.mem_map.1 hg
        exact follows_of_keeps fun _ =>
          Db.stateOf_update_keeps fun _ => Download.insertChunk_state _
    · cases hf
  | completeTx id totalBytes sourcePeerId hashes =>
    obtain ⟨g, hg, rfl⟩ := List.mem_map.1 hf
    refine follows_update fun d _ => ?_
    simp only [edits, List.mem_append, List.mem_cons, List.not_mem_nil, or_false,
      List.mem_map] at hg
    rcases hg with (rfl | rfl | rfl | rfl) | ⟨chunk, -, rfl⟩
    · exact raise_valid rfl d
    · exact raise_valid rfl d
    · exact raise_valid rfl d
    · exact finish_valid _ _ _ d
    · rw [Download.upsertVerified_state]
      exact isValidTransition_self _
  | _ => exact absurd rfl hw

@[simp] lemma trail_head? (fs : List (Db → Db)) (db : Db) : (trail fs db).head? = some db := by
  cases fs <;> rfl

lemma trail_getLast? (fs : List (Db → Db)) (db : Db) :
    (trail fs db).getLast? = some (fs.foldl (fun db f => f db) db) := by
  induction fs generalizing db with
  | nil => rfl
  | cons f fs ih =>
    rw [trail, List.getLast?_cons, ih]
    rfl

lemma isChain_trail {P : Db → Db → Prop} {fs : List (Db → Db)} {db : Db}
    (h : ∀ f ∈ fs, ∀ db, P db (f db)) : (trail fs db).IsChain P := by
  induction fs generalizing db with
  | nil => exact .singleton db
  | cons f fs ih =>
    refine List.isChain_cons.2 ⟨fun db' hdb' => ?_, ih fun g hg => h g (List.mem_cons_of_mem _ hg)⟩
    rw [trail_head?, Option.mem_some_iff] at hdb'
    exact hdb' ▸ h f List.mem_cons_self db

end Effect

/-- The databases that a step stores, from the one before it; each statement of a transaction stores
one. -/
def StoreStep.stored (d : StoreStep) : List Db :=
  match (d.resp : Except String d.effect.Answer) with
  | .error _ => [d.before]
  | .ok _ => Effect.trail (d.effect.statements d.inp.now d.before) d.before

/-- What a step stores begins with what it found and ends with what it left. -/
lemma stored_ends {d : StoreStep} (hh : storeSystem.Handled d) :
    d.stored.head? = some d.before ∧ d.stored.getLast? = some d.after := by
  unfold StoreStep.stored
  rcases handled_cases hh with ⟨msg, hr, ha⟩ | ⟨hr, ha⟩
  · rw [hr, ha]
    exact ⟨rfl, rfl⟩
  · rw [hr, ha]
    exact ⟨Effect.trail_head? _ _, Effect.trail_getLast? _ _⟩

/-! ### Checks and writes -/

/-- The check that lets a call write `target`: it read a state that permits it. -/
def letsThrough (id : String) (target : DownloadState) : Record → Bool
  | ⟨.selectState id', (.ok (some current) : Except String (Option DownloadState))⟩ =>
    id' == id && isValidTransition current target
  | _ => false

/-- **The condition on a step**: between the check that let a call through and its `UPDATE`, no step
changes the stored state of the download. -/
def Undisturbed (h : List StoreStep) (d : StoreStep) : Prop :=
  ∀ id target, d.effect.target = some (id, target) → ∃ pre x post, h = pre ++ x :: post ∧
    x.op = d.op ∧ letsThrough id target (Did.record x) = true ∧
    ∀ y ∈ post, y.after.stateOf id = y.before.stateOf id

lemma letsThrough_eq {id : String} {target : DownloadState} {x : Record}
    (h : letsThrough id target x = true) :
    ∃ current, x = ⟨.selectState id, .ok (some current)⟩ ∧
      isValidTransition current target = true := by
  unfold letsThrough at h
  split at h
  · rename_i id' current
    simp only [Bool.and_eq_true, beq_iff_eq] at h
    exact ⟨current, h.1 ▸ rfl, h.2⟩
  · cases h

/-- The state that a check let through is still stored after it. -/
lemma letsThrough_spec {id : String} {target : DownloadState} {x : StoreStep}
    (hx : storeSystem.Handled x) (hl : letsThrough id target (Did.record x) = true) :
    ∃ current, x.after.stateOf id = some current ∧ isValidTransition current target = true := by
  obtain ⟨current, hrec, hv⟩ := letsThrough_eq hl
  obtain ⟨op, e, inp, resp, before, after⟩ := x
  cases hrec
  rcases handled_cases hx with ⟨msg, hr, -⟩ | ⟨hr, ha⟩
  · cases hr
  · obtain rfl : after = before := ha
    exact ⟨current, (Except.ok.inj hr).symm, hv⟩

/-- A step that meets the condition only makes changes that are allowed. -/
lemma isChain_stored {s₀ : Db} {guard : List StoreStep → StoreStep → Prop} {h : List StoreStep}
    {p : Calls} {d : StoreStep} (r : storeSystem.Run guard s₀ h p) (hb : p.state = d.before)
    (hg : Undisturbed h d) : d.stored.IsChain Follows := by
  unfold StoreStep.stored
  split
  · exact .singleton _
  cases ht : d.effect.target with
  | none => exact Effect.isChain_trail fun f hf db => Effect.follows_of_mem ht hf db
  | some aim =>
    obtain ⟨id, target⟩ := aim
    obtain ⟨pre, x, post, hh, -, hlets, hkeep⟩ := hg id target ht
    obtain ⟨hx, -, -⟩ := r.split hh
    obtain ⟨current, hc, hv⟩ := letsThrough_spec hx hlets
    -- the state of the check is the state that the `UPDATE` finds
    have hnow : d.before.stateOf id = some current := by
      rw [← hb, r.kept (fun db => db.stateOf id) hh hkeep, hc]
    have hsingle : ∀ f : Download → Download, (∀ row, (f row).state = target) →
        (Effect.trail [Db.update id f] d.before).IsChain Follows := by
      intro f hf
      refine List.isChain_pair.2 (follows_update fun row hrow => ?_)
      rw [Db.stateOf, hrow] at hnow
      rw [hf, Option.some.inj hnow]
      exact hv
    obtain ⟨op, e, inp, resp, before, after⟩ := d
    cases e with
    | setState => cases ht; exact hsingle _ fun _ => rfl
    | setFailed => cases ht; exact hsingle _ fun _ => rfl
    | _ => cases ht

/-- A step that stores no state leaves them all. -/
lemma stateOf_of_not_stores {d : StoreStep} (hh : storeSystem.Handled d)
    (hs : storesState (Did.record d) = false) (id : String) :
    d.after.stateOf id = d.before.stateOf id := by
  rcases handled_cases hh with ⟨msg, -, ha⟩ | ⟨hr, ha⟩
  · rw [ha]
  by_cases hw : d.effect.writesState = false
  · rw [ha]
    exact List.foldlRecOn (motive := fun db => db.stateOf id = d.before.stateOf id) _ _ rfl
      fun db hdb f hf => (Effect.keeps_of_mem hw hf db id).trans hdb
  obtain ⟨op, e, inp, resp, before, after⟩ := d
  obtain rfl : resp = .ok (e.answer before) := hr
  cases e with
  | setState | setFailed | completeTx => cases hs
  | createTx new chunks =>
    have hkept : before.admitsNew new = false := hs
    have hnone : Effect.statements inp.now (.createTx new chunks) before = [] := by
      simp [Effect.statements, hkept]
    rw [ha]
    simp only [hnone, List.foldl_nil]
  | _ => exact absurd rfl hw

/-! ### Runs -/

/-- The state machine of the stored downloads, over a history and the calls that made it. -/
structure StateMachine (h : List StoreStep) (p : Calls) : Prop where
  /-- `stored` is what a step does to the database, … -/
  ends : ∀ d ∈ h, d.stored.head? = some d.before ∧ d.stored.getLast? = some d.after
  /-- … and each of its statements only makes changes that are allowed. -/
  allowed : ∀ d ∈ h, d.stored.IsChain Follows
  final : ∀ pre d post, h = pre ++ d :: post → ∀ id s, s.terminal = true →
    d.after.stateOf id = some s → p.state.stateOf id = some s
  failed : ∀ t ∈ p.tasks, (∃ e, t.result = some (.error e)) →
    ∀ x ∈ t.done, storesState x = false
  unchanged : ∀ d ∈ h, storesState (Did.record d) = false →
    ∀ id, d.after.stateOf id = d.before.stateOf id

lemma terminal_of_isChain {l : List Db} (hl : l.IsChain Follows) {id : String} {s : DownloadState}
    (hs : s.terminal = true) (hhead : ∀ db ∈ l.head?, db.stateOf id = some s) :
    ∀ db ∈ l.getLast?, db.stateOf id = some s := by
  induction l with
  | nil => exact fun db hdb => by cases hdb
  | cons a l ih =>
    obtain ⟨hnext, hl⟩ := List.isChain_cons.1 hl
    have ha : a.stateOf id = some s := hhead a rfl
    cases l with
    | nil =>
      intro db hdb
      obtain rfl : a = db := Option.some.inj hdb
      exact ha
    | cons b l =>
      rw [List.getLast?_cons_cons]
      refine ih hl fun db hdb => ?_
      obtain ⟨next, hn, hv⟩ := hnext db hdb id s ha
      rw [hn, eq_of_terminal hs hv]

variable {s₀ : Db} {h : List StoreStep} {p : Calls}

lemma isChain_of_run (r : storeSystem.Run Undisturbed s₀ h p) :
    ∀ d ∈ h, d.stored.IsChain Follows := by
  intro d hd
  obtain ⟨-, h', p', r', hb, hg⟩ := r.before d hd
  exact isChain_stored r' hb hg

/-- A state that ends a download stays. -/
lemma final_of_run (r : storeSystem.Run Undisturbed s₀ h p) {pre post : List StoreStep}
    {d : StoreStep} (hh : h = pre ++ d :: post) {id : String} {s : DownloadState}
    (hs : s.terminal = true) (ha : d.after.stateOf id = some s) : p.state.stateOf id = some s := by
  refine r.since (I := fun db => db.stateOf id = some s) hh ha fun y hy hb => ?_
  have hmem : y ∈ h := by
    rw [hh]
    exact List.mem_append_right _ (List.mem_cons_of_mem _ hy)
  obtain ⟨hhead, hlast⟩ := stored_ends (r.before y hmem).1
  refine terminal_of_isChain (isChain_of_run r y hmem) hs (fun db hdb => ?_) _ hlast
  obtain rfl := Option.some.inj (hhead.symm.trans hdb)
  exact hb

/-- **The state machine is respected.**  In every run of the store in which no step changes a stored
state between the check of a `transition` or `mark_failed` and its `UPDATE`, every statement changes
the stored states as `is_valid_transition` allows, a final state stays, and a call that fails has
stored no state. -/
theorem state_machine_respected (r : storeSystem.Run Undisturbed s₀ h p) : StateMachine h p where
  ends d hd := stored_ends (r.before d hd).1
  allowed := isChain_of_run r
  final pre d post hh id s hs ha := final_of_run r hh hs ha
  failed t ht := by
    have hsat := (r.recalls program_spec fun _ _ => trivial).2 t ht
    rintro ⟨e, he⟩
    exact System.sat_of_result hsat.2.2 he ⟨e, rfl⟩
  unchanged d hd hs := stateOf_of_not_stores (r.before d hd).1 hs

/-! ### A late pause -/

namespace LatePause

/-- The transfer has every chunk and is about to complete. -/
def row : Download where
  mediaId := "media"
  roomId := none
  userId := "user"
  state := .verifying
  totalBytes := 0
  transferredBytes := 0
  startedAt := 0
  completedAt := none
  lastError := none
  sourcePeerId := none
  chunkSizeBytes := chunkSizeBytes
  manifestVersion := 1
  chunks := ∅

def db : Db := (∅ : Db).insert "download" row

def inp : Effect.Input := { fails := none, now := 0 }

/-- The user pauses; the transfer completes between the check and the write. -/
def moves : List (Move Op Effect.Input) :=
  [.spawn (.transition "download" .paused), .spawn (.transition "download" .complete),
    .advance 0 inp, .advance 1 inp, .advance 1 inp, .advance 0 inp]

/-- The transfer completes; a call is refused between its check and its write, and the user's pause
is refused after it. -/
def refused : List (Move Op Effect.Input) :=
  [.spawn (.transition "download" .complete), .spawn (.transition "download" .connecting),
    .advance 0 inp, .advance 1 inp, .advance 0 inp, .spawn (.transition "download" .paused),
    .advance 2 inp]

/-- The last step takes the download from one state to the other. -/
def moved (current target : DownloadState) (out : List StoreStep × Calls) : Bool :=
  out.1.getLast?.any fun d => d.before.stateOf "download" == some current &&
    d.after.stateOf "download" == some target

lemma not_stateMachine_of_moved {h : List StoreStep} {p : Calls}
    (hm : moved .complete .paused (h, p) = true) : ¬StateMachine h p := by
  intro hs
  obtain ⟨d, hd, hm⟩ := (Option.any_eq_true _ _).1 hm
  simp only [Bool.and_eq_true, beq_iff_eq] at hm
  have hmem : d ∈ h := List.mem_of_getLast? hd
  obtain ⟨hhead, hlast⟩ := hs.ends d hmem
  have hstays : d.after.stateOf "download" = some .complete := by
    refine terminal_of_isChain (hs.allowed d hmem) rfl (fun db hdb => ?_) _ hlast
    obtain rfl := Option.some.inj (hhead.symm.trans hdb)
    exact hm.1
  rw [hm.2] at hstays
  cases hstays

/-- The last step of the same call is its check, and no step since changed the state. -/
def checkedBefore (h : List StoreStep) (d : StoreStep) : Bool :=
  d.effect.target.all fun aim =>
    (h.reverse.takeWhile fun y => y.op != d.op).all
      (fun y => y.after.stateOf aim.1 == y.before.stateOf aim.1) &&
    (h.reverse.dropWhile fun y => y.op != d.op).head?.any fun x =>
      x.op == d.op && letsThrough aim.1 aim.2 (Did.record x)

lemma undisturbed_of_check {h : List StoreStep} {d : StoreStep}
    (hc : checkedBefore h d = true) : Undisturbed h d := by
  intro id target ht
  rw [checkedBefore, ht] at hc
  obtain ⟨hsame, hcheck⟩ := Bool.and_eq_true_iff.1 hc
  obtain ⟨x, hx, hcheck⟩ := (Option.any_eq_true _ _).1 hcheck
  obtain ⟨pre, hpre⟩ := List.head?_eq_some_iff.1 hx
  simp only [Bool.and_eq_true, beq_iff_eq] at hcheck
  have hparts :=
    (List.takeWhile_append_dropWhile (p := fun y => y.op != d.op) (l := h.reverse)).symm
  rw [hpre, ← List.reverse_inj, List.reverse_reverse, List.reverse_append, List.reverse_cons,
    List.append_assoc, List.singleton_append] at hparts
  refine ⟨pre.reverse, x, _, hparts, hcheck.1, hcheck.2, fun y hy => ?_⟩
  simpa using List.all_eq_true.1 hsame y (List.mem_reverse.1 hy)

/-- A completed download becomes a paused one. -/
theorem complete_then_paused : ∃ h p, storeSystem.Run (fun _ _ => True) db h p ∧
    ¬StateMachine h p := by
  have hrun : ∃ h p, storeSystem.Run (fun _ _ => True) db h p ∧
      moved .complete .paused (h, p) = true :=
    System.exists_run_of_play moves (fun _ _ => true) _ (fun _ _ _ => trivial) (by decide)
  obtain ⟨h, p, r, hm⟩ := hrun
  exact ⟨h, p, r, not_stateMachine_of_moved hm⟩

/-- The transfer is complete, and the two other calls have failed. -/
def completedAlone (out : List StoreStep × Calls) : Bool :=
  out.2.state.stateOf "download" == some .complete && out.2.tasks.tail.all fun t =>
    match t.result with
    | some (.error _) => true
    | _ => false

/-- Three calls, of which two are refused. -/
theorem state_machine_respected_refused : ∃ h p, storeSystem.Run Undisturbed db h p ∧
    completedAlone (h, p) = true ∧ StateMachine h p := by
  have hrun : ∃ h p, storeSystem.Run Undisturbed db h p ∧ completedAlone (h, p) = true :=
    System.exists_run_of_play refused checkedBefore _ (fun _ _ => undisturbed_of_check) (by decide)
  obtain ⟨h, p, r, hm⟩ := hrun
  exact ⟨h, p, r, hm, state_machine_respected r⟩

end LatePause

end Locast.Transfer
