import Locast.Rooms.DrawingInv

/-!
# The eviction queue

`evictOrder` is cleaned lazily: an undone id stays in it, and the clean-up keeps every entry whose
id is committed.  Along the runs in which no `DRAW_BEGIN` reuses an id that is still queued, the
queue has no repetition and, restricted to the strokes that hold points, is the commit order
(`Queued`). Then it is bounded and evicts the least recently committed stroke (`eviction_of_run`).
A reused id breaks both: `evictOrder_unbounded` is a run that begins, ends and undoes one id over
and over.
-/

namespace Locast.Rooms

open Locast.Protocol StrokeBookkeeping

/-! ### Two lists filtered alike -/

lemma filter_of_find {α : Type} {p : α → Bool} {v : α} {l : List α} (h : l.find? p = some v) :
    l.filter p = v :: ((l.dropWhile fun a => !p a).tail).filter p := by
  induction l with
  | nil => cases h
  | cons a l ih =>
    cases ha : p a with
    | true =>
      simp only [List.find?_cons, ha, Option.some.injEq] at h
      subst h
      simp [ha]
    | false =>
      simp only [List.find?_cons, ha] at h
      simp [ha, ih h]

/-- Replacing the test by one that also asks for `r` filters the filtered list. -/
lemma filter_refine {α : Type} {p q r : α → Bool} {l : List α}
    (h : ∀ a ∈ l, q a = (p a && r a)) : l.filter q = (l.filter p).filter r := by
  rw [List.filter_filter]
  exact List.filter_congr fun a ha => by rw [h a ha, Bool.and_comm]

/-! ### The queue invariant -/

namespace StrokeBookkeeping

structure Queued (s : StrokeBookkeeping) : Prop where
  nodup : s.evictOrder.Nodup
  sync : s.evictOrder.filter s.holdsPoints = s.committedOrder.filter s.holdsPoints
  notMem_of_pending : ∀ id, id ∈ s.pending → id ∉ s.evictOrder
  length_le : s.evictOrder.length ≤ 2 * maxCommittedStrokes

variable {s s' : StrokeBookkeeping}

/-- A committed stroke holds points exactly when its own two entries say so. -/
lemma holdsPoints_congr {id : Uuid} (hc : s'.committed.get id = s.committed.get id)
    (hk : s'.content.get id = s.content.get id) : s'.holdsPoints id = s.holdsPoints id := by
  unfold holdsPoints
  have hmem : (id ∈ s'.committed) = (id ∈ s.committed) := by
    rw [AList.mem_iff_get, AList.mem_iff_get, hc]
  simp only [hmem, hk]

lemma holdsPoints_of_notMem {id : Uuid} (h : id ∉ s.committed) : s.holdsPoints id = false := by
  simp [holdsPoints, h]

/-- A change that leaves the queue, the commit order and what the strokes hold alone, and opens no
queued id. -/
lemma Queued.of_same (h : s.Queued) (hq : s'.evictOrder = s.evictOrder)
    (ho : s'.committedOrder = s.committedOrder) (hh : s'.holdsPoints = s.holdsPoints)
    (hp : ∀ id, id ∈ s'.pending → id ∉ s.evictOrder) : s'.Queued where
  nodup := hq ▸ h.nodup
  sync := by rw [hq, ho, hh]; exact h.sync
  notMem_of_pending := by rw [hq]; exact hp
  length_le := hq ▸ h.length_le

/-- A stroke that is not committed may change its content freely. -/
lemma holdsPoints_of_uncommitted {id : Uuid} (hid : id ∉ s.committed)
    (hc : s'.committed = s.committed) (hk : ∀ k, k ≠ id → s'.content.get k = s.content.get k) :
    s'.holdsPoints = s.holdsPoints := by
  funext k
  by_cases hkid : k = id
  · subst hkid
    rw [holdsPoints_of_notMem hid, holdsPoints_of_notMem (hc ▸ hid)]
  · exact holdsPoints_congr (by rw [hc]) (hk k hkid)

/-! ### The queue when a stroke ends -/

lemma recordEnd_evictOrder (s : StrokeBookkeeping) (id : Uuid) (tsMs : ℤ) :
    (s.recordEnd id tsMs).evictOrder =
      cleanQueue s.committed (s.evictOrder ++ if id ∈ s.content then [id] else []) := by
  unfold recordEnd
  cases hc : s.content.get id with
  | none => simp [AList.get_eq_none.1 hc]
  | some c => simp [AList.mem_of_get hc]

lemma cleanQueue_sublist (committed : Locast.Lib.AMap Uuid Uuid) (queue : List Uuid) :
    (cleanQueue committed queue).Sublist queue := by
  unfold cleanQueue
  split
  · exact List.filter_sublist
  · exact List.Sublist.refl _

/-- Cleaning removes no stroke that holds points. -/
lemma filter_cleanQueue (queue : List Uuid) :
    (cleanQueue s.committed queue).filter s.holdsPoints = queue.filter s.holdsPoints := by
  unfold cleanQueue
  split
  · rw [List.filter_filter]
    refine List.filter_congr fun k _ => ?_
    by_cases hk : k ∈ s.committed
    · simp [hk]
    · simp [hk, holdsPoints_of_notMem hk]
  · rfl

/-- A queue without repetition is short enough once it has been cleaned. -/
lemma length_cleanQueue_le (ho : s.Ordered) {queue : List Uuid} (hn : queue.Nodup) :
    (cleanQueue s.committed queue).length ≤ 2 * maxCommittedStrokes := by
  unfold cleanQueue
  split
  · have hsub : queue.filter (· ∈ s.committed) ⊆ s.committedOrder := by
      intro k hk
      exact (ho.mem_iff k).2 (by simpa using (List.mem_filter.1 hk).2)
    have hlen := (List.subperm_of_subset (hn.filter _) hsub).length_le
    have hle := ho.length_le
    omega
  · omega

theorem Queued.ends (h : s.Queued) (hb : s.Bookkept) {id owner : Uuid} {tsMs : ℤ}
    (hid : id ∈ s.pending) (hs : s.Ends id owner tsMs s') : s'.Queued := by
  obtain ⟨t, gone, hc, rfl⟩ := hs
  obtain ⟨hp, hcom, ho, -⟩ := recordEnd_frame t id tsMs
  have hnew : id ∉ s.evictOrder := h.notMem_of_pending id hid
  have hnew' : id ∉ s.committedOrder := fun hm =>
    hb.not_committed_of_pending id hid ((hb.ordered.mem_iff id).1 hm)
  have hq : t.evictOrder = s.evictOrder := hc.evictOrder_eq
  -- recording the end changes no points
  have hholds : (t.recordEnd id tsMs).holdsPoints = t.holdsPoints := by
    funext k
    unfold holdsPoints
    rw [hcom, recordEnd_content]
    by_cases hk : k = id
    · subst hk
      cases t.content.get k <;> simp
    · simp [hk]
  -- away from `id`, a stroke holds points as before unless it was forgotten
  have hholds_ne : ∀ k, k ≠ id → t.holdsPoints k = (s.holdsPoints k && decide (k ∉ gone)) := by
    intro k hk
    by_cases hg : k ∈ gone
    · have : k ∉ t.committed := by
        rw [AList.mem_iff_get, hc.committed_get, if_pos hg]
        simp
      simp [holdsPoints_of_notMem this, hg]
    · rw [holdsPoints_congr (s := s) (by rw [hc.committed_get, if_neg hg, if_neg hk]; rfl)
        (by rw [hc.content_get, if_neg hg]; rfl)]
      simp [hg]
  have hfilter : ∀ l : List Uuid, id ∉ l →
      l.filter t.holdsPoints = (l.filter s.holdsPoints).filter fun k => decide (k ∉ gone) :=
    fun l hl => filter_refine fun k hk => hholds_ne k fun e => hl (e ▸ hk)
  -- the ending stroke is last in both lists
  have hlast : (if id ∈ t.content then [id] else []).filter t.holdsPoints =
      [id].filter t.holdsPoints := by
    split
    · rfl
    · rename_i hk
      have : t.holdsPoints id = false := by
        simp [holdsPoints, AList.get_eq_none.2 hk]
      simp [this]
  have hgone : gone.filter t.holdsPoints = [] := by
    rw [List.filter_eq_nil_iff]
    intro k hk
    have : k ∉ t.committed := by
      rw [AList.mem_iff_get, hc.committed_get, if_pos hk]
      simp
    simp [holdsPoints_of_notMem this]
  have horder : t.committedOrder.filter t.holdsPoints =
      (s.committedOrder ++ [id]).filter t.holdsPoints := by
    have := hc.order_eq
    unfold closed at this
    rw [this, List.filter_append, hgone, List.nil_append]
  have hnodup : (s.evictOrder ++ if id ∈ t.content then [id] else []).Nodup := by
    refine List.nodup_append.2 ⟨h.nodup, by split <;> simp, ?_⟩
    rintro a ha b hb' rfl
    split at hb'
    · exact hnew (List.mem_singleton.1 hb' ▸ ha)
    · cases hb'
  refine ⟨?_, ?_, ?_, ?_⟩
  · rw [recordEnd_evictOrder, hq]
    exact hnodup.sublist (cleanQueue_sublist _ _)
  · rw [hholds, ho, recordEnd_evictOrder, filter_cleanQueue, hq, List.filter_append, hlast, horder,
      List.filter_append, hfilter _ hnew, hfilter _ hnew', h.sync]
  · intro k hk hk'
    rw [hp, hc.pending_eq] at hk
    obtain ⟨hne, hk⟩ := AList.mem_erase.1 hk
    rw [recordEnd_evictOrder, hq] at hk'
    rcases List.mem_append.1 ((cleanQueue_sublist _ _).subset hk') with hm | hm
    · exact h.notMem_of_pending k hk hm
    · split at hm
      · exact hne (List.mem_singleton.1 hm)
      · cases hm
  · rw [recordEnd_evictOrder, hq]
    exact length_cleanQueue_le hc.ordered hnodup

/-- A cleared stroke ends: it was not committed, so nothing queued changes. -/
theorem Queued.closed_forgotten (h : s.Queued) (hb : s.Bookkept) {id : Uuid}
    (hid : id ∈ s.pending) : ((s.closed id).forgotten id).Queued := by
  have hu := hb.not_committed_of_pending id hid
  refine h.of_same rfl rfl (holdsPoints_of_uncommitted hu rfl fun k hk => ?_) fun k hk =>
    h.notMem_of_pending k (AList.mem_erase.1 hk).2
  rw [forgotten, closed, AList.get_erase, if_neg hk]

/-! ### The queue when strokes are finished and begun -/

lemma Queued.finishes (h : s.Queued) (hb : s.Bookkept) {nowMs : ℤ} {id : Uuid}
    {finished : List (Uuid × Uuid)} (hf : s.Finishes nowMs id finished s') : s'.Queued := by
  cases hf with
  | cleared stroke hs hcl => exact h.closed_forgotten hb (AList.mem_of_get hs)
  | ended stroke hs hcl s' he => exact h.ends hb (AList.mem_of_get hs) he

theorem Queued.finishesAll {user : Uuid} {nowMs : ℤ} {finished : List (Uuid × Uuid)}
    (hf : FinishesAll user nowMs s finished s') (h : s.Queued) (hb : s.Bookkept) : s'.Queued := by
  induction hf with
  | done => exact h
  | round hf _ ih => exact ih (h.finishes hb hf) (hb.finishes hf)

/-- Finishing strokes queues only strokes that were open. -/
lemma FinishesAll.notMem_evictOrder {user : Uuid} {nowMs : ℤ} {finished : List (Uuid × Uuid)}
    (hf : FinishesAll user nowMs s finished s') {id : Uuid} (hp : id ∉ s.pending)
    (hq : id ∉ s.evictOrder) : id ∉ s'.evictOrder := by
  induction hf with
  | done => exact hq
  | @round s t s' k finished later hf _ ih =>
    refine ih (fun h => hp ?_) fun h => ?_
    · rw [hf.pending_eq] at h
      exact (AList.mem_erase.1 h).2
    · cases hf with
      | cleared => exact hq h
      | ended stroke hs hcl _ he =>
        obtain ⟨u, gone, hc, rfl⟩ := he
        rw [recordEnd_evictOrder, hc.evictOrder_eq] at h
        rcases List.mem_append.1 ((cleanQueue_sublist _ _).subset h) with hm | hm
        · exact hq hm
        · split at hm
          · exact hp (List.mem_singleton.1 hm ▸ AList.mem_of_get hs)
          · cases hm

theorem Queued.opened (h : s.Queued) {stroke : PendingStroke} {begin : StrokeBeginPayload}
    (hc : begin.strokeId ∉ s.committed) (hq : begin.strokeId ∉ s.evictOrder) :
    (s.opened stroke begin).Queued := by
  refine h.of_same rfl rfl (holdsPoints_of_uncommitted hc rfl fun k hk => ?_) fun k hk => ?_
  · rw [StrokeBookkeeping.opened, AList.get_insert, if_neg hk, AList.get_erase, if_neg hk]
  · rcases (AList.mem_insert _).1 hk with rfl | hk
    · exact hq
    · exact h.notMem_of_pending k hk

/-! ### The queue when a point is kept, a stroke undone, the canvas cleared -/

theorem Queued.keepsPoint (h : s.Queued) {point : StrokePointPayload}
    (hp : point.strokeId ∉ s.committed) (hs : s.KeepsPoint point s') : s'.Queued := by
  cases hs with
  | unkept => exact h
  | atLimit =>
    refine h.of_same (by simp) (by simp) (holdsPoints_of_uncommitted hp (by simp) fun k hk => ?_)
      fun k hk => h.notMem_of_pending k (by simpa using hk)
    rw [freed_get, if_neg hk]
  | append c hc hd hlen hroom =>
    refine h.of_same rfl rfl (holdsPoints_of_uncommitted hp rfl fun k hk => ?_)
      h.notMem_of_pending
    rw [appended, AList.get_insert, if_neg hk]
  | evict c hc hd hlen hfull victim hv hne =>
    set queue := (s.evictOrder.dropWhile fun id => !s.holdsPoints id).tail with hqueue
    set t : StrokeBookkeeping := { s.freed victim with evictOrder := queue } with ht
    have hsub : queue.Sublist s.evictOrder :=
      (List.tail_sublist _).trans (List.dropWhile_sublist _)
    have hholds : ∀ k, (t.appended point c).holdsPoints k =
        (s.holdsPoints k && decide (k ≠ victim)) := by
      intro k
      by_cases hk : k = victim
      · subst hk
        have hget : (t.appended point c).content.get k =
            (s.content.get k).map fun c => { c with points := [], dropped := true } := by
          rw [appended, AList.get_insert, if_neg (Ne.symm hne), ht]
          exact (freed_get k k).trans (if_pos rfl)
        unfold holdsPoints
        rw [hget]
        cases s.content.get k <;> simp
      · by_cases hkp : k = point.strokeId
        · have hcom : k ∉ (t.appended point c).committed := by
            rw [hkp]
            exact (freed_committed victim).symm ▸ hp
          rw [holdsPoints_of_notMem hcom, holdsPoints_of_notMem (hkp ▸ hp)]
          rfl
        · rw [holdsPoints_congr (s := s)]
          · simp [hk]
          · exact congrArg (·.get k) (freed_committed victim)
          · rw [appended, AList.get_insert, if_neg hkp, ht]
            exact (freed_get victim k).trans (if_neg hk)
    have hfilter : ∀ l : List Uuid, l.filter (t.appended point c).holdsPoints =
        (l.filter s.holdsPoints).filter fun k => decide (k ≠ victim) :=
      fun l => filter_refine fun k _ => hholds k
    have hevict := filter_of_find hv
    rw [← hqueue] at hevict
    refine ⟨h.nodup.sublist hsub, ?_, fun k hk hk' => ?_, (hsub.length_le).trans h.length_le⟩
    · have horder : (t.appended point c).committedOrder = s.committedOrder :=
        freed_committedOrder victim
      have hq : (t.appended point c).evictOrder = queue := rfl
      rw [horder, hq, hfilter, hfilter, ← h.sync, hevict]
      simp
    · have hk : k ∈ s.pending := freed_pending (s := s) victim ▸ hk
      exact h.notMem_of_pending k hk (hsub.subset hk')
  | giveUp c hc hd hlen hfull hv =>
    have hnil : s.committedOrder.filter s.holdsPoints = [] := by
      rw [← h.sync, List.filter_eq_nil_iff]
      exact List.find?_eq_none.1 hv
    have hholds : ({ s with evictOrder := [] }.freed point.strokeId).holdsPoints = s.holdsPoints :=
      holdsPoints_of_uncommitted hp (by simp) fun k hk => by
        rw [freed_get, if_neg hk]
    refine ⟨by simp, ?_, fun k _ => by simp, by simp⟩
    rw [hholds]
    simpa using hnil.symm

theorem Queued.undone (h : s.Queued) (id : Uuid) : (s.undone id).Queued := by
  have hholds : ∀ k, (s.undone id).holdsPoints k = (s.holdsPoints k && decide (k ≠ id)) := by
    intro k
    by_cases hk : k = id
    · have : k ∉ (s.undone id).committed := fun hm => (AList.mem_erase.1 hm).1 hk
      rw [holdsPoints_of_notMem this]
      simp [hk]
    · rw [holdsPoints_congr (s := s)]
      · simp [hk]
      · rw [StrokeBookkeeping.undone, AList.get_erase, if_neg hk]
      · rw [StrokeBookkeeping.undone, AList.get_erase, if_neg hk]
  have hfilter : ∀ l : List Uuid, l.filter (s.undone id).holdsPoints =
      (l.filter s.holdsPoints).filter fun k => decide (k ≠ id) :=
    fun l => filter_refine fun k _ => hholds k
  refine ⟨h.nodup, ?_, h.notMem_of_pending, h.length_le⟩
  have horder : (s.undone id).committedOrder = s.committedOrder.filter (· ≠ id) := rfl
  have hq : (s.undone id).evictOrder = s.evictOrder := rfl
  rw [horder, hq, hfilter, hfilter, h.sync, List.filter_filter, List.filter_filter,
    List.filter_filter]
  exact List.filter_congr fun k _ => by cases s.holdsPoints k <;> simp

theorem Queued.clearAll (s : StrokeBookkeeping) : s.clearAll.2.Queued :=
  ⟨List.nodup_nil, rfl, fun _ _ => List.not_mem_nil, Nat.zero_le _⟩

theorem Queued.new (nowMs : ℕ) : (StrokeBookkeeping.new nowMs).Queued :=
  ⟨List.nodup_nil, rfl, fun _ _ => List.not_mem_nil, Nat.zero_le _⟩

end StrokeBookkeeping

/-! ### Runs -/

lemma StrokeBookkeeping.pointsOf_le_appended {s : StrokeBookkeeping} (point : StrokePointPayload)
    {c : StrokeContent} (hc : s.content.get point.strokeId = some c) (id : Uuid) :
    s.pointsOf id ≤ (s.appended point c).pointsOf id := by
  unfold pointsOf appended
  rw [AList.get_insert]
  split
  · rename_i hid
    simp [hid, hc]
  · exact le_rfl

/-- The call does not reach what the queue gets wrong: an accepted `DRAW_BEGIN` names no id that is
still queued; and when an accepted point of a stroke whose content is kept finds the budget full,
some committed stroke holds points (otherwise the documented fallback frees the point's own
stroke). -/
structure DrawingCall.Tame (verify : VerifyStroke) (state : RoomState) (call : DrawingCall) :
    Prop where
  fresh : ∀ envelope payload userId pubkey nowMs,
    call = .begin envelope (.ok payload) userId pubkey nowMs →
    strokeBeginError verify envelope state userId pubkey payload = none →
    payload.strokeId ∉ state.drawing.evictOrder
  victim : ∀ envelope payload userId stroke c,
    call = .point envelope (.ok payload) userId →
    (validateUnitRange payload.x && validateUnitRange payload.y &&
      validateUnitRange payload.pressure) = true →
    state.drawing.pending.get payload.strokeId = some stroke → stroke.senderId = userId →
    stroke.cleared = false →
    state.drawing.content.get payload.strokeId = some c → c.dropped = false →
    c.points.length < maxRetainedPointsPerStroke →
    maxRetainedPoints ≤ state.drawing.retainedPoints →
    ∃ id, state.drawing.holdsPoints id = true

/-- The states reached from `start` by tame calls. -/
inductive TameRun (verify : VerifyStroke) (start : RoomState) : RoomState → Prop
  | start : TameRun verify start start
  | call {state state' : RoomState} (call : DrawingCall) (h : TameRun verify start state)
      (ht : call.Tame verify state) (hr : call.run verify state = some state') :
      TameRun verify start state'

/-- Every stroke that a call frees to stay within the budget is the least recently committed of the
committed strokes that hold points. -/
def EvictsOldest (s : StrokeBookkeeping) (call : DrawingCall) (s' : StrokeBookkeeping) : Prop :=
  ∀ envelope payload userId id, call = .point envelope (.ok payload) userId →
    s.pointsOf payload.strokeId < maxRetainedPointsPerStroke →
    s'.pointsOf id < s.pointsOf id → s.committedOrder.find? s.holdsPoints = some id

section Runs

variable {verify : VerifyStroke} {state state' : RoomState}

lemma strokeBeginError_of_opened {call : DrawingCall} (hr : call.run verify state = some state')
    {envelope : Envelope} {payload : StrokeBeginPayload} {userId : Uuid}
    {pubkey : PubKey} {nowMs : ℤ}
    (hcall : call = .begin envelope (.ok payload) userId pubkey nowMs)
    (hne : state'.drawing.pending.get payload.strokeId ≠
      state.drawing.pending.get payload.strokeId) :
    strokeBeginError verify envelope state userId pubkey payload = none := by
  subst hcall
  by_contra herr
  obtain ⟨e, he⟩ := Option.ne_none_iff_exists'.1 herr
  simp only [DrawingCall.run, handleStrokeBegin, he, Option.map_some, Option.some.injEq] at hr
  exact hne (by rw [← hr])

/-- **One tame call keeps the queue invariant.** -/
theorem StrokeBookkeeping.Queued.step (h : state.drawing.Queued) (hb : state.drawing.Bookkept)
    {call : DrawingCall} (ht : call.Tame verify state) (hr : call.run verify state = some state')
    (hs : DrawingStep state.drawing call state'.drawing) : state'.drawing.Queued := by
  generalize hd : state'.drawing = s' at hs
  cases hs with
  | same => exact h
  | opened envelope payload userId pubkey nowMs hp hc t finished hf =>
    have hpending : state'.drawing.pending.get payload.strokeId ≠
        state.drawing.pending.get payload.strokeId := by
      rw [hd, StrokeBookkeeping.opened, AList.get_insert_self, AList.get_eq_none.2 hp]
      simp
    have hq := ht.fresh envelope payload userId pubkey nowMs rfl
      (strokeBeginError_of_opened hr rfl hpending)
    exact (h.finishesAll hf hb).opened (hf.fresh hp hc).2 (hf.notMem_evictOrder hp hq)
  | kept envelope payload userId hrange stroke hst hu hcl s' hk =>
    exact h.keepsPoint (hb.not_committed_of_pending _ (AList.mem_of_get hst)) hk
  | forgot envelope payload userId stroke hst hcl =>
    exact h.closed_forgotten hb (AList.mem_of_get hst)
  | ended envelope payload userId stroke hst hcl s' he =>
    exact h.ends hb (AList.mem_of_get hst) he
  | undone => exact h.undone _
  | cleared => exact Queued.clearAll _

/-- **One tame point evicts the oldest.** -/
theorem evictsOldest_of_step (h : state.drawing.Queued) (hb : state.drawing.Bookkept)
    {call : DrawingCall} (ht : call.Tame verify state)
    (hs : DrawingStep state.drawing call state'.drawing) :
    EvictsOldest state.drawing call state'.drawing := by
  rintro envelope payload userId id rfl hlen hless
  generalize hd : state'.drawing = s' at hs hless
  cases hs with
  | same => exact absurd hless (lt_irrefl _)
  | kept _ _ _ hrange stroke hst hu hcl s' hk =>
    have hp := hb.not_committed_of_pending _ (AList.mem_of_get hst)
    cases hk with
    | unkept => exact absurd hless (lt_irrefl _)
    | atLimit hlimit => exact absurd hlen (not_lt.2 hlimit)
    | append c hc hdr hlt hroom =>
      have hle := pointsOf_le_appended payload hc id
      omega
    | evict c hc hdr hlt hfull victim hv hne =>
      have hid : id = victim := by
        by_contra hid
        have hget : (state.drawing.freed victim).content.get payload.strokeId = some c := by
          rw [freed_get, if_neg hne, hc]
        have hle := pointsOf_le_appended payload hget id
        have hsame : (state.drawing.freed victim).pointsOf id = state.drawing.pointsOf id := by
          rw [pointsOf, freed_get, if_neg hid, pointsOf]
        exact absurd hless (not_lt.2 (hsame ▸ hle))
      rw [hid, ← List.head?_filter, ← h.sync, List.head?_filter, hv]
    | giveUp c hc hdr hlt hfull hv =>
      exfalso
      obtain ⟨v, hholds⟩ := ht.victim envelope payload userId stroke c rfl hrange hst hu hcl hc hdr
        hlt (not_lt.1 hfull)
      have hmem : v ∈ state.drawing.committedOrder.filter state.drawing.holdsPoints :=
        List.mem_filter.2 ⟨(hb.ordered.mem_iff v).2 (holdsPoints_iff.1 hholds).1, hholds⟩
      rw [← h.sync] at hmem
      exact List.find?_eq_none.1 hv v (List.mem_of_mem_filter hmem) hholds

lemma TameRun.invariants {start : RoomState} (hrun : TameRun verify start state)
    (hb : start.drawing.Bookkept) (hq : start.drawing.Queued) :
    state.drawing.Bookkept ∧ state.drawing.Queued := by
  induction hrun with
  | start => exact ⟨hb, hq⟩
  | call call _ ht hr ih =>
    obtain ⟨state₁, hr₁, hs⟩ := drawingCall_spec verify ih.1 call
    obtain rfl : state₁ = _ := Option.some.inj (hr₁.symm.trans hr)
    exact ⟨ih.1.step hs, ih.2.step ih.1 ht hr hs⟩

end Runs

/-- **Eviction along tame runs.**  From a new room, in every state a tame run reaches the queue has
at most `2 * maxCommittedStrokes` entries, and the next tame call frees only the least recently
committed stroke that holds points. -/
theorem eviction_of_run (verify : VerifyStroke) (id : Uuid) (code title : String)
    (hostUserId : Uuid) (hostPubkey : PubKey) (migration : Bool) (createdMs : ℤ)
    (capSet : BitVec 32) (wallMs : ℕ) {state : RoomState}
    (hrun : TameRun verify
      (.new id code title hostUserId hostPubkey migration createdMs capSet wallMs) state) :
    state.drawing.evictOrder.length ≤ 2 * maxCommittedStrokes ∧
      ∀ call state', call.Tame verify state → call.run verify state = some state' →
        EvictsOldest state.drawing call state'.drawing := by
  obtain ⟨hb, hq⟩ := hrun.invariants (.new wallMs) (.new wallMs)
  refine ⟨hq.length_le, fun call state' ht hr => ?_⟩
  obtain ⟨state₁, hr₁, hs⟩ := drawingCall_spec verify hb call
  obtain rfl : state₁ = state' := Option.some.inj (hr₁.symm.trans hr)
  exact evictsOldest_of_step hq hb ht hs

/-! ### One id begun, ended and undone over and over -/

namespace Reuse

/-- The room of host `7` after the stroke `3` was begun, ended and undone `n` times. -/
def room (n : ℕ) : RoomState :=
  { RoomState.new 1 "ABCDEF" "t" 7 (Vector.replicate 32 0) true 0 Cap.host 0 with
    drawing := { StrokeBookkeeping.new 0 with evictOrder := List.replicate n 3 } }

def envelope : Envelope where
  roomId := some 1
  sender := some ⟨7, List.replicate 32 0, List.replicate 64 0⟩
  body := .other
  serializedLen := 0

def payload : StrokeBeginPayload where
  strokeId := 3
  tool := .pen
  color := "#fff"
  width := 0x3F800000
  x := 0
  y := 0
  pressure := 0
  tsMs := 0

def begin : DrawingCall := .begin envelope (.ok payload) 7 (Vector.replicate 32 0) 0
def finish : DrawingCall := .finish envelope (.ok ⟨3, 0⟩) 7
def undo : DrawingCall := .undo envelope (.ok ⟨3⟩) 7

/-- The room with the stroke begun once more. -/
def opened (n : ℕ) : RoomState :=
  { room n with drawing := { (room n).drawing with
    pending := AList.insert 3 ⟨7, Vector.replicate 32 0, 0, false⟩ ∅
    content := AList.insert 3 ⟨7, payload, [], none, false⟩ ∅ } }

/-- The room with the stroke ended, its queue being `queue`. -/
def ended (n : ℕ) (queue : List Uuid) : RoomState :=
  { room n with drawing := { (room n).drawing with
    committed := AList.insert 3 7 ∅
    committedOrder := [3]
    content := AList.insert 3 ⟨7, payload, [], some 0, false⟩ ∅
    evictOrder := queue } }

/-- Every signature verifies. -/
def verify : VerifyStroke := fun _ _ _ => true

lemma run_begin (n : ℕ) : begin.run verify (room n) = some (opened n) := rfl

/-- The id that just ended is committed, so the clean-up keeps all of its entries. -/
lemma run_finish (n : ℕ) :
    finish.run verify (opened n) = some (ended n (List.replicate (n + 1) 3)) := by
  have hqueue : cleanQueue (AList.insert 3 7 ∅) (List.replicate n 3 ++ [3]) =
      List.replicate (n + 1) 3 := by
    have hmem : ∀ k ∈ List.replicate (n + 1) (3 : Uuid),
        decide (k ∈ (AList.insert 3 7 ∅ : Locast.Lib.AMap Uuid Uuid)) = true := by
      intro k hk
      rw [List.eq_of_mem_replicate hk]
      decide
    rw [← List.replicate_succ', cleanQueue, List.filter_eq_self.2 hmem, ite_self]
  have hrun : finish.run verify (opened n) =
      some (ended n (cleanQueue (AList.insert 3 7 ∅) (List.replicate n 3 ++ [3]))) := rfl
  rw [hrun, hqueue]

lemma run_undo (n : ℕ) :
    undo.run verify (ended n (List.replicate (n + 1) 3)) = some (room (n + 1)) := rfl

lemma run_cycles (k n : ℕ) (rest : List DrawingCall) :
    runCalls verify (room n) ((List.replicate k [begin, finish, undo]).flatten ++ rest) =
      runCalls verify (room (n + k)) rest := by
  induction k generalizing n with
  | zero => rfl
  | succ k ih =>
    have hcycle : runCalls verify (room n) ([begin, finish, undo] ++
        ((List.replicate k [begin, finish, undo]).flatten ++ rest)) =
          runCalls verify (room (n + 1))
            ((List.replicate k [begin, finish, undo]).flatten ++ rest) := by
      simp only [runCalls, List.cons_append, List.nil_append, List.foldlM_cons,
        run_begin, run_finish, run_undo, Option.bind_eq_bind, Option.bind_some]
    rw [List.replicate_succ, List.flatten_cons, List.append_assoc, hcycle, ih, Nat.add_right_comm,
      Nat.add_assoc]

end Reuse

/-- One stroke id begun, ended and undone 10000 times and then begun and ended once more leaves
10001 entries in the queue. -/
theorem evictOrder_unbounded :
    ∃ state, runCalls Reuse.verify (.new 1 "ABCDEF" "t" 7 (Vector.replicate 32 0) true 0 Cap.host 0)
        ((List.replicate 10000 [Reuse.begin, Reuse.finish, Reuse.undo]).flatten ++
          [Reuse.begin, Reuse.finish]) = some state ∧
      2 * maxCommittedStrokes < state.drawing.evictOrder.length := by
  have hlen : (Reuse.ended 10000 (List.replicate (10000 + 1) 3)).drawing.evictOrder.length =
      10000 + 1 := List.length_replicate
  refine ⟨Reuse.ended 10000 (List.replicate (10000 + 1) 3), ?_, by rw [hlen]; decide⟩
  refine (Reuse.run_cycles 10000 0 _).trans ?_
  simp only [runCalls, List.foldlM_cons, List.foldlM_nil, Reuse.run_begin, Reuse.run_finish,
    Option.bind_eq_bind, Option.bind_some]
  rfl

/-! ### A full budget -/

namespace Budget

open Reuse (envelope payload verify)

def start : RoomState := .new 1 "ABCDEF" "t" 7 (Vector.replicate 32 0) true 0 Cap.host 0

def stroke (id : Uuid) : StrokeBeginPayload := { payload with strokeId := id }

def begin (id : Uuid) : DrawingCall := .begin envelope (.ok (stroke id)) 7 (Vector.replicate 32 0) 0
def point (id : Uuid) : DrawingCall := .point envelope (.ok ⟨id, 0, 0, 0, 0⟩) 7
def finish (id : Uuid) : DrawingCall := .finish envelope (.ok ⟨id, 0⟩) 7
def undo (id : Uuid) : DrawingCall := .undo envelope (.ok ⟨id⟩) 7

def kept : StrokeSyncPoint := ⟨0, 0, 0, 0⟩

/-- The bookkeeping with the stroke `id` open and `n` points of it kept. -/
def opened (s : StrokeBookkeeping) (id : Uuid) (n : ℕ) : StrokeBookkeeping :=
  { s with
    pending := AList.insert id ⟨7, Vector.replicate 32 0, 0, false⟩ ∅
    content := s.content.insert id ⟨7, stroke id, List.replicate n kept, none, false⟩
    retainedPoints := s.retainedPoints + n }

/-- The bookkeeping with the stroke `id` of `n` points committed. -/
def drawn (s : StrokeBookkeeping) (id : Uuid) (n : ℕ) : StrokeBookkeeping :=
  { s with
    committed := s.committed.insert id 7
    committedOrder := s.committedOrder ++ [id]
    content := s.content.insert id ⟨7, stroke id, List.replicate n kept, some 0, false⟩
    retainedPoints := s.retainedPoints + n
    evictOrder := s.evictOrder ++ [id] }

/-- The room with such a bookkeeping. -/
def room (s : StrokeBookkeeping) : RoomState := { start with drawing := s }

/-- Reached by tame calls. -/
def Tamed (s : StrokeBookkeeping) : Prop := TameRun verify start (room s)

variable {s : StrokeBookkeeping} {id : Uuid} {n : ℕ}

lemma tamed_opened (h : Tamed s) (hp : s.pending = ∅) (hc : id ∉ s.committed)
    (hk : id ∉ s.content) (hq : id ∉ s.evictOrder) : Tamed (opened s id 0) := by
  have hfree : strokeBeginError verify envelope (room s) 7 (Vector.replicate 32 0)
      (stroke id) = none := by
    have hrange : ¬(!validateUnitRange payload.x || !validateUnitRange payload.y ||
        !validateUnitRange payload.pressure || !(payload.width.isFinite && payload.width.pos)) =
          true := by
      decide
    have hverified : verifyStrokeBeginSignature verify envelope (stroke id) 7
        (Vector.replicate 32 0) = .ok () := rfl
    have hnew :
        ¬((id ∈ (room s).drawing.pending || ((room s).drawing.ownerOf id).isSome) = true) := by
      simp [room, hp, ownerOf, AList.get_eq_none.2 hc]
    refine (if_neg hrange).trans ?_
    rw [hverified]
    exact if_neg hnew
  have hroom : s.finishOldestOpenStrokes 7 0 = some (s, []) := by
    rw [finishOldestOpenStrokes, hp]
    rfl
  have hkept : ({ s with pending := s.pending.insert id ⟨7, Vector.replicate 32 0, 0, false⟩ } :
      StrokeBookkeeping).recordBegin 7 (stroke id) = some (opened s id 0) := by
    rw [recordBegin, forgetContent]
    simp only [stroke, AList.get_eq_none.2 hk, hp]
    rfl
  refine .call (begin id) h ⟨fun _ _ _ _ _ hcall _ => ?_, fun _ _ _ _ _ hcall => (by cases hcall)⟩
    ?_
  · cases hcall
    exact hq
  · change (handleStrokeBegin verify envelope (.ok (stroke id)) (room s) 7 _ 0).map (·.2) = _
    simp only [handleStrokeBegin, hfree]
    exact Option.map_eq_some_iff.2 ⟨_, Option.bind_eq_some_iff.2
      ⟨_, hroom, Option.bind_eq_some_iff.2 ⟨_, hkept, rfl⟩⟩, rfl⟩

lemma tamed_point (h : Tamed (opened s id n)) (hn : n < maxRetainedPointsPerStroke)
    (hr : s.retainedPoints + n < maxRetainedPoints) : Tamed (opened s id (n + 1)) := by
  have hless : (opened s id n).retainedPoints < maxRetainedPoints := hr
  have hroom : (opened s id n).makeRoom (opened s id n).evictOrder =
      some (true, opened s id n) := by
    cases hq : (opened s id n).evictOrder with
    | nil =>
      rw [makeRoom, decide_eq_true hless, ← hq]
    | cons k queue =>
      rw [makeRoom, if_pos hless, ← hq]
  have hget : (opened s id n).content.get id =
      some ⟨7, stroke id, List.replicate n kept, none, false⟩ :=
    AList.get_insert_self _ _ _
  have hkept : (opened s id n).recordPoint ⟨id, 0, 0, 0, 0⟩ = some (opened s id (n + 1)) := by
    rw [recordPoint]
    simp only [hget]
    rw [if_neg (by decide), if_neg (by rw [List.length_replicate]; exact Nat.not_le.2 hn), hroom]
    simp only [Option.bind_eq_bind, Option.bind_some, if_true, hget]
    simp only [opened, List.replicate_succ', AList.insert_insert, Nat.add_assoc]
    rfl
  have hopen : (room (opened s id n)).drawing.pending.get id =
      some ⟨7, Vector.replicate 32 0, 0, false⟩ :=
    AList.get_insert_self _ _ _
  refine .call (point id) h ⟨fun _ _ _ _ _ hcall => (by cases hcall),
    fun _ _ _ _ _ hcall _ _ _ _ _ _ _ hfull => ?_⟩ ?_
  · exact absurd hfull (Nat.not_le.2 hr)
  · change (handleStrokePoint envelope (.ok ⟨id, 0, 0, 0, 0⟩) (room (opened s id n)) 7).map (·.2) =
      _
    rw [handleStrokePoint]
    simp only [hopen]
    change ((StrokeBookkeeping.recordPoint (opened s id n) _).bind _).map _ = _
    rw [hkept]
    rfl

lemma tamed_points (h : Tamed (opened s id 0)) (hn : n ≤ maxRetainedPointsPerStroke)
    (hr : s.retainedPoints + n ≤ maxRetainedPoints) : Tamed (opened s id n) := by
  induction n with
  | zero => exact h
  | succ n ih => exact tamed_point (ih (by omega) (by omega)) (by omega) (by omega)

lemma popOverCap_of_le (committed : Locast.Lib.AMap Uuid Uuid) {l : List Uuid}
    (h : l.length ≤ maxCommittedStrokes) : popOverCap committed l = (committed, l, []) := by
  cases l with
  | nil => rfl
  | cons a l => rw [popOverCap, if_neg (Nat.not_lt.2 h)]

lemma tamed_drawn (h : Tamed (opened s id n)) (hp : s.pending = ∅) (hc : id ∉ s.committed)
    (hlen : s.committedOrder.length < maxCommittedStrokes)
    (hq : s.evictOrder.length < 2 * maxCommittedStrokes) : Tamed (drawn s id n) := by
  have hget : (opened s id n).content.get id =
      some ⟨7, stroke id, List.replicate n kept, none, false⟩ :=
    AList.get_insert_self _ _ _
  have hone : (s.committedOrder ++ [id]).length ≤ maxCommittedStrokes := by
    rw [List.length_append]
    exact hlen
  have herase : (opened s id n).pending.erase id = ∅ := AList.ext (List.kerase_cons_eq rfl)
  have hcommit : ({ opened s id n with pending := (opened s id n).pending.erase id } :
      StrokeBookkeeping).commit id 7 = some ({ opened s id n with
        pending := ∅
        committed := s.committed.insert id 7
        committedOrder := s.committedOrder ++ [id] }, []) := by
    have hnew : id ∉ (opened s id n).committed := hc
    rw [herase, commit, if_neg hnew]
    have hpop := popOverCap_of_le (s.committed.insert id 7) hone
    simp only [opened] at hpop ⊢
    rw [hpop]
    rfl
  have hqueue : cleanQueue (s.committed.insert id 7) (s.evictOrder ++ [id]) =
      s.evictOrder ++ [id] := by
    rw [cleanQueue, if_neg]
    rw [List.length_append]
    exact Nat.not_lt.2 hq
  have hopen : (room (opened s id n)).drawing.pending.get id =
      some ⟨7, Vector.replicate 32 0, 0, false⟩ :=
    AList.get_insert_self _ _ _
  refine .call (finish id) h ⟨fun _ _ _ _ _ hcall => (by cases hcall),
    fun _ _ _ _ _ hcall => (by cases hcall)⟩ ?_
  change (handleStrokeEnd envelope (.ok ⟨id, 0⟩) (room (opened s id n)) 7).map (·.2) = _
  rw [handleStrokeEnd]
  simp only [hopen]
  have hend : ({ opened s id n with
        pending := ∅
        committed := s.committed.insert id 7
        committedOrder := s.committedOrder ++ [id] } : StrokeBookkeeping).recordEnd id 0 =
          drawn s id n := by
    simp only [recordEnd, hget]
    simp only [opened, drawn, hqueue, AList.insert_insert, hp]
  refine Option.map_eq_some_iff.2 ⟨_, Option.bind_eq_some_iff.2 ⟨_, hcommit, rfl⟩, ?_⟩
  simp only [hend]
  rfl

/-- The bookkeeping with the committed stroke `id` undone. -/
def undone (s : StrokeBookkeeping) (id : Uuid) (n : ℕ) : StrokeBookkeeping :=
  { s with
    committed := s.committed.erase id
    committedOrder := s.committedOrder.filter (· ≠ id)
    content := s.content.erase id
    retainedPoints := s.retainedPoints - n }

lemma tamed_stroke (h : Tamed s) (hp : s.pending = ∅) (hc : id ∉ s.committed) (hk : id ∉ s.content)
    (hlen : s.committedOrder.length < maxCommittedStrokes) (hid : id ∉ s.evictOrder)
    (hq : s.evictOrder.length < 2 * maxCommittedStrokes) (hn : n ≤ maxRetainedPointsPerStroke)
    (hr : s.retainedPoints + n ≤ maxRetainedPoints) : Tamed (drawn s id n) :=
  tamed_drawn (tamed_points (tamed_opened h hp hc hk hid) hn hr) hp hc hlen hq

lemma tamed_undone (h : Tamed s) {c : StrokeContent} (hc : s.committed.get id = some 7)
    (hk : s.content.get id = some c) (hle : c.points.length ≤ s.retainedPoints) :
    Tamed (undone s id c.points.length) := by
  have hmay : mayUndo (room s) 7 7 = true := rfl
  have howner : (room s).drawing.ownerOf id = some 7 := hc
  have hremove : s.removeCommitted id = some (true, undone s id c.points.length) := by
    rw [removeCommitted, if_pos (AList.mem_of_get hc), forgetContent]
    simp only [hk, checkedSub_of_le hle]
    rfl
  refine .call (undo id) h ⟨fun _ _ _ _ _ hcall => (by cases hcall),
    fun _ _ _ _ _ hcall => (by cases hcall)⟩ ?_
  change (handleStrokeUndo envelope (.ok ⟨id⟩) (room s) 7).map (·.2) = _
  rw [handleStrokeUndo]
  simp only [howner, hmay]
  exact Option.map_eq_some_iff.2 ⟨_, Option.bind_eq_some_iff.2 ⟨_, hremove, rfl⟩, rfl⟩

lemma tamed_strokes {ids : List Uuid} (h : Tamed s) (hp : s.pending = ∅) (hids : ids.Nodup)
    (hnew : ∀ id ∈ ids, id ∉ s.committed ∧ id ∉ s.content ∧ id ∉ s.evictOrder)
    (hlen : s.committedOrder.length + ids.length ≤ maxCommittedStrokes)
    (hq : s.evictOrder.length + ids.length ≤ 2 * maxCommittedStrokes)
    (hn : n ≤ maxRetainedPointsPerStroke)
    (hr : s.retainedPoints + ids.length * n ≤ maxRetainedPoints) :
    Tamed (ids.foldl (drawn · · n) s) := by
  induction ids generalizing s with
  | nil => exact h
  | cons id ids ih =>
    obtain ⟨hid, hids⟩ := List.nodup_cons.1 hids
    obtain ⟨hc, hk, he⟩ := hnew id List.mem_cons_self
    simp only [List.length_cons, Nat.add_mul] at hlen hq hr
    have hfirst : Tamed (drawn s id n) :=
      tamed_stroke h hp hc hk (by omega) he (by omega) hn (by omega)
    refine ih hfirst hp hids (fun k hkmem => ?_) ?_ ?_ ?_
    · obtain ⟨hc', hk', he'⟩ := hnew k (List.mem_cons_of_mem _ hkmem)
      have hne : k ≠ id := fun heq => hid (heq ▸ hkmem)
      simp [drawn, hc', hk', he', hne]
    · simp only [drawn, List.length_append, List.length_singleton]
      omega
    · simp only [drawn, List.length_append, List.length_singleton]
      omega
    · simp only [drawn]
      omega

/-- One stroke begun, ended and undone. -/
def erased : StrokeBookkeeping := undone (drawn (.new 0) 6 1) 6 1

lemma tamed_erased : Tamed erased :=
  tamed_undone (c := ⟨7, stroke 6, [kept], some 0, false⟩)
    (tamed_stroke .start rfl (by decide) (by decide) (by decide) (by decide) (by decide) (by decide)
      (by decide)) rfl rfl (by decide)

/-- Then five of `n` points, and one more begun. -/
def books (n : ℕ) : StrokeBookkeeping := opened ([1, 2, 3, 4, 5].foldl (drawn · · n) erased) 8 0

lemma tamed_books (hn : n ≤ maxRetainedPointsPerStroke) : Tamed (books n) := by
  have hbudget : 5 * n ≤ maxRetainedPoints := Nat.mul_le_mul_left 5 hn
  have hstrokes : Tamed ([1, 2, 3, 4, 5].foldl (drawn · · n) erased) :=
    tamed_strokes tamed_erased rfl (by decide) (by decide) (by decide) (by decide) hn
      (by simpa [erased, undone, drawn, StrokeBookkeeping.new,
        StrokeBookkeeping.empty] using hbudget)
  refine tamed_opened hstrokes rfl ?_ ?_ ?_
  · exact (by decide : (8 : Uuid) ∉ ([1, 2, 3, 4, 5].foldl (drawn · · 0) erased).committed)
  · simp [drawn]
    decide
  · exact (by decide : (8 : Uuid) ∉ ([1, 2, 3, 4, 5].foldl (drawn · · 0) erased).evictOrder)

lemma books_victim (hn : 0 < n) : (books n).evictOrder.find? (books n).holdsPoints = some 1 := by
  have hqueue : (books n).evictOrder = [6, 1, 2, 3, 4, 5] := rfl
  have hcommitted : (books n).committed = (books 0).committed := rfl
  have hundone : (books n).holdsPoints 6 = false :=
    holdsPoints_of_notMem (hcommitted ▸ (by decide : (6 : Uuid) ∉ (books 0).committed))
  have hheld : (books n).holdsPoints 1 = true := by
    have hone : (books n).content.get 1 = some
      ⟨7, stroke 1, List.replicate n kept, some 0, false⟩ := rfl
    have hmem : (1 : Uuid) ∈ (books n).committed :=
      hcommitted ▸ (by decide : (1 : Uuid) ∈ (books 0).committed)
    simp [holdsPoints, hone, hmem, Nat.pos_iff_ne_zero.1 hn]
  rw [hqueue, List.find?_cons, hundone, List.find?_cons, hheld]

/-- When the budget is full, the next point frees the stroke that was committed first. -/
lemma books_point (hn : 0 < n) (hlen : n ≤ maxRetainedPointsPerStroke)
    (hfull : maxRetainedPoints ≤ (books n).retainedPoints) :
    ∃ state', (point 8).run verify (room (books n)) = some state' ∧
      state'.drawing.pointsOf 1 = 0 ∧ (books n).pointsOf 1 = n := by
  have hb := ((tamed_books hlen).invariants (.new 0) (.new 0)).1
  have hcommitted : (books n).committed = (books 0).committed := rfl
  have hopen : (8 : Uuid) ∉ (books n).committed :=
    hcommitted ▸ (by decide : (8 : Uuid) ∉ (books 0).committed)
  have hnew : (books n).content.get 8 = some ⟨7, stroke 8, [], none, false⟩ := rfl
  have hone : (books n).content.get 1 = some ⟨7, stroke 1, List.replicate n kept, some 0, false⟩ :=
    rfl
  have hpending : (room (books n)).drawing.pending.get 8 =
    some ⟨7, Vector.replicate 32 0, 0, false⟩ := rfl
  obtain ⟨s', hrecord, hk⟩ := recordPoint_spec hb.retained ⟨8, 0, 0, 0, 0⟩ hopen
  refine ⟨room s', ?_, ?_, by rw [pointsOf, hone]; exact List.length_replicate⟩
  · change (handleStrokePoint envelope (.ok ⟨8, 0, 0, 0, 0⟩) (room (books n)) 7).map (·.2) = _
    rw [handleStrokePoint]
    simp only [hpending]
    exact Option.map_eq_some_iff.2 ⟨_, Option.bind_eq_some_iff.2 ⟨_, hrecord, rfl⟩, rfl⟩
  change s'.pointsOf 1 = 0
  change (books n).KeepsPoint _ s' at hk
  cases hk with
  | unkept hd => cases hd _ hnew
  | atLimit hlimit =>
    rw [pointsOf, hnew] at hlimit
    cases hlimit
  | append c hc hd hlen hroom => exact absurd hfull (Nat.not_le.2 hroom)
  | evict c hc hd hlen hfull victim hv hne =>
    obtain rfl := Option.some.inj ((books_victim hn).symm.trans hv)
    simp only [pointsOf, appended, AList.get_insert, if_neg (show (1 : Uuid) ≠ 8 by decide)]
    rw [freed_get, if_pos rfl, hone]
    rfl
  | giveUp c hc hd hlen hfull hv => cases (books_victim hn).symm.trans hv

end Budget

/-- The budget is full, five strokes are committed and one was undone: the next point frees the
oldest of the five. -/
theorem eviction_of_run_full :
    let state := Budget.room (Budget.books maxRetainedPointsPerStroke)
    state.drawing.evictOrder = [6, 1, 2, 3, 4, 5] ∧ state.drawing.committedOrder = [1, 2, 3, 4, 5] ∧
      state.drawing.evictOrder.length ≤ 2 * maxCommittedStrokes ∧
      ∃ state', (Budget.point 8).run Reuse.verify state = some state' ∧
        state'.drawing.pointsOf 1 = 0 ∧ state.drawing.pointsOf 1 = maxRetainedPointsPerStroke ∧
        EvictsOldest state.drawing (Budget.point 8) state'.drawing := by
  have hn : 0 < maxRetainedPointsPerStroke := by decide
  have hbudget : (Budget.books maxRetainedPointsPerStroke).retainedPoints = maxRetainedPoints := by
    decide
  obtain ⟨hle, hstep⟩ := eviction_of_run Reuse.verify 1 "ABCDEF" "t" 7
    (Vector.replicate 32 0) true 0
    Cap.host 0 (Budget.tamed_books le_rfl)
  obtain ⟨state', hrun, hfreed, hheld⟩ := Budget.books_point hn le_rfl hbudget.ge
  refine ⟨rfl, rfl, hle, state', hrun, hfreed, hheld, hstep _ _ ⟨?_, ?_⟩ hrun⟩
  · exact fun _ _ _ _ _ hcall => (by cases hcall)
  · exact fun _ _ _ _ _ _ _ _ _ _ _ _ _ _ => ⟨1, List.find?_some (Budget.books_victim hn)⟩

end Locast.Rooms
